import DynScript.Proofs.Episodes

/-!
# The values of runs

A run gives the value of the last statement of its program when this is an expression.
-/

namespace DynScript

open List

/-! ### Expressions at the end -/

mutual

/-- The expression at the end of a statement: that of an expression, and what a block ends with. -/
def Stmt.closing : Stmt → Option Expr
  | .expression e _ => some e
  | .block b => b.closing
  | _ => none

/-- The expression that a block gives the value of. -/
def Block.closing : Block → Option Expr
  | .mk statements _ _ => closingAmong statements

/-- The expression at the end of the last of some statements. -/
def closingAmong : List Stmt → Option Expr
  | [] => none
  | [s] => s.closing
  | _ :: s :: rest => closingAmong (s :: rest)

end

/-- Whether a statement is a block. -/
def Stmt.isBlock : Stmt → Bool
  | .block _ => true
  | _ => false

lemma Stmt.exists_of_isBlock {s : Stmt} (h : s.isBlock) : ∃ b, s = .block b := by
  cases s with
  | block b => exact ⟨b, rfl⟩
  | _ => cases h

lemma closingAmong_eq (l) : closingAmong l = l.getLast?.bind Stmt.closing := by
  induction l with
  | nil => rfl
  | cons s l ih =>
    cases l with
    | nil => rfl
    | cons t l => rw [closingAmong, ih, getLast?_cons_cons]

lemma Block.closing_eq (b : Block) : b.closing = b.statements.getLast?.bind Stmt.closing := by
  cases b with
  | mk statements slots place => rw [Block.closing, closingAmong_eq, Block.statements]

lemma getLast?_of_suffix {s} {l : List Stmt} (h : [s] <:+ l) : l.getLast? = some s := by
  obtain ⟨front, rfl⟩ := h
  exact getLast?_concat

lemma Block.suffix_of_afterLabel {target} {l rest} (h : Block.afterLabel target l = some rest) :
    rest <:+ l ∧
      (rest = [] → l.getLast?.bind Stmt.closing = none) := by
  induction l with
  | nil => cases h
  | cons s l ih =>
    have later (h : Block.afterLabel target l = some rest) : rest <:+ s :: l ∧
        (rest = [] → (s :: l).getLast?.bind Stmt.closing = none) := by
      obtain ⟨suffix, last⟩ := ih h
      refine ⟨suffix.trans (suffix_cons s l), fun hr => ?_⟩
      cases l with
      | nil => cases h
      | cons t l => exact last hr
    cases s with
    | label l' place =>
      rw [Block.afterLabel] at h
      split at h
      · cases h
        refine ⟨suffix_cons _ _, ?_⟩
        rintro rfl
        rfl
      · exact later h
    | _ => exact later h

/-- Parts of statements that give no value, whatever they are given. -/
def Pending.isMute : Pending → Bool
  | .declare .. | .print _ | .branch .. | .discard | .loopTest .. | .loopBody .. | .loopStep ..
  | .jumpValue _ => true
  | _ => false

namespace Machine

variable {rules : Rules} {m n a y : Machine} {S : List Pending} {v w : Value}

/-! ### Statements that give no value -/

/-- The machine has come down to `S` and gives no value. -/
structure Silent (S : List Pending) (m : Machine) : Prop where
  stack : m.stack = S
  takes : TakesUp m.control
  nothing : ∀ v, m.control = .give v → v = .nothing

namespace Silent

lemma give (hs : m.stack = S) : (m.give .nothing).Silent S :=
  ⟨hs, trivial, fun _ hv => (Control.give.inj hv).symm⟩

lemma raise {f place} (hs : m.stack = S) : (m.raise f place).Silent S :=
  ⟨hs, trivial, fun _ hv => by cases hv⟩

lemma jump (hs : m.stack = S) {target} (hc : m.control = .jump target v) : m.Silent S :=
  ⟨hs, hc ▸ trivial, fun _ hv => by rw [hc] at hv; cases hv⟩

lemma raised (hs : m.stack = S) {e} (hc : m.control = .raise e) : m.Silent S :=
  ⟨hs, hc ▸ trivial, fun _ hv => by rw [hc] at hv; cases hv⟩

end Silent

/-- A statement that gives no value is on its way, or has come to its end. -/
def Mute (S : List Pending) (m : Machine) : Prop :=
  (∃ q : Pending, q.isMute ∧ q :: S <:+ m.stack) ∨ m.Silent S

variable {e : Expr} {s : Stmt}

lemma mute_eval {frame} {q : Pending} (hs : m.stack = S) (hq : q.isMute) :
    (m.eval e frame q).Mute S :=
  .inl ⟨q, hq, hs ▸ suffix_rfl⟩

lemma mute_exec {frame} {q : Pending} (hs : m.stack = S) (hq : q.isMute) :
    (m.exec s frame q).Mute S :=
  .inl ⟨q, hq, hs ▸ suffix_rfl⟩

lemma mute_nextRound {condition body step exit next frame} (hs : m.stack = S) :
    (m.nextRound condition body step exit next frame).Mute S := by
  unfold nextRound
  split <;> exact mute_eval hs rfl

lemma mute_step_of_isMute {p : Pending} (hp : p.isMute) (hs : m.stack = p :: S)
    (hc : TakesUp m.control) : (m.step rules).Mute S := by
  unfold step
  cases control : m.control with
  | eval e frame | exec s frame | apply callee arguments place => rw [control] at hc; cases hc
  | raise e =>
    rw [hs]
    cases p <;> exact .inr (.raised rfl rfl)
  | jump target v =>
    rw [hs]
    cases p with
    | loopBody condition body step exit next frame =>
      dsimp only [jumpThrough]
      split
      · exact .inr (.give rfl)
      · split
        · exact mute_nextRound rfl
        · exact .inr (.jump rfl rfl)
    | _ => first
      | exact .inr (.jump rfl rfl)
      | cases hp
  | give v =>
    rw [hs]
    cases p with
    | declare slot frame place =>
      dsimp only [resume, withCell]
      split
      · exact .inr (.give rfl)
      · exact .inr (.raise rfl)
    | print place =>
      dsimp only [resume, withText]
      split
      · exact .inr (.give rfl)
      · exact .inr (.raise rfl)
    | branch first second frame =>
      dsimp only [resume]
      split
      · exact mute_exec rfl rfl
      · split
        · exact mute_exec rfl rfl
        · exact .inr (.give rfl)
    | discard => exact .inr (.give rfl)
    | loopTest condition body step exit next frame =>
      dsimp only [resume]
      split
      · exact mute_exec rfl rfl
      · exact .inr (.give rfl)
    | loopBody condition body step exit next frame => exact mute_nextRound rfl
    | loopStep condition body step exit next frame => exact mute_eval rfl rfl
    | jumpValue target => exact .inr (.jump rfl rfl)
    | _ => cases hp

lemma Mute.step (h : m.Mute S) (hm : ¬ (m.stack = S ∧ TakesUp m.control)) :
    (m.step rules).Mute S := by
  rcases h with ⟨q, hq, hs⟩ | silent
  · by_cases up : m.stack = q :: S ∧ TakesUp m.control
    · exact mute_step_of_isMute hq up.1 up.2
    · exact .inl ⟨q, hq, suffix_step_of_suffix hs up⟩
  · exact absurd ⟨silent.stack, silent.takes⟩ hm

lemma Mute.within (h : m.Mute S) (run : Within rules S m n) : n.Mute S := by
  induction run with
  | refl => exact h
  | step _ hn ih => exact ih.step hn

lemma Mute.nothing (h : m.Mute S) (hs : m.stack = S) (hc : m.control = .give v) :
    v = .nothing := by
  rcases h with ⟨q, -, more⟩ | silent
  · have long := more.length_le
    rw [hs] at long
    exact absurd long (Nat.not_succ_le_self _)
  · exact silent.nothing v hc

lemma mute_of_exec {frame} (hc : m.control = .exec s frame) (hs : s.closing = none)
    (hb : s.isBlock = false) : (m.step rules).Mute m.stack := by
  unfold step
  rw [hc]
  cases s with
  | expression e place => cases hs
  | block b => cases hb
  | declare | print | branch | loop => exact mute_eval rfl rfl
  | jump target value place =>
    cases value with
    | none => exact .inr (.jump rfl rfl)
    | some e => exact mute_eval rfl rfl
  | label l place => exact .inr (.give rfl)

/-! ### Values of statements -/

/-- The statement that `m` is about to execute gives the value `v` of the expression `e` in the end,
when the machine is `n`: it is this expression, or a block whose last statement leaves this value.
-/
inductive Leaves (rules : Rules) (e : Expr) (v : Value) : Machine → Machine → Prop where
  | expression {m n : Machine} {place} {frame}
    (hc : m.control = .exec (.expression e place) frame) (run : Within rules m.stack m n)
    (hs : n.stack = m.stack) (hn : n.control = .give v) : Leaves rules e v m n
  | block {m a y : Machine} {b : Block} {frame inner} {s}
    (hc : m.control = .exec (.block b) frame) (hb : b.statements.getLast? = some s)
    (run : Within rules m.stack m a) (ha : a.control = .exec s inner)
    (hs : a.stack = .block b [] inner :: m.stack) (h : Leaves rules e v a y) :
    Leaves rules e v m (y.step rules)

lemma step_of_spent {b frame} (hs : m.stack = .block b [] frame :: S) (hc : m.control = .give v) :
    m.step rules = { m with stack := S } := by
  simp only [step, hc, hs, resume]
  rfl

lemma Leaves.ends (h : Leaves rules e v m n) : n.stack = m.stack ∧ n.control = .give v := by
  induction h with
  | expression _ _ hs hn => exact ⟨hs, hn⟩
  | block _ _ _ _ hs _ ih =>
    rw [step_of_spent (ih.1.trans hs) ih.2]
    exact ⟨rfl, ih.2⟩

lemma Leaves.within (h : Leaves rules e v m n) : Within rules m.stack m n := by
  induction h with
  | expression _ run => exact run
  | @block m a y b frame inner s hc hb run ha hs h ih =>
    have inside : Within rules m.stack a y := ih.mono suffix_rfl (hs ▸ suffix_cons _ _)
    refine (run.trans inside).step ?_
    rintro ⟨down, -⟩
    have long := congrArg List.length (h.ends.1.trans hs)
    rw [down, length_cons] at long
    exact Nat.succ_ne_self _ long.symm

/-- What the statements of a block come to, from `m` on and with `S` pending: nothing, or what the
last one leaves. -/
def Results (rules : Rules) (S : List Pending) (b : Block) (frame : Ref) (m : Machine) (v : Value)
    (n : Machine) : Prop :=
  b.closing = none ∧ v = .nothing ∨ ∃ s e a y, b.statements.getLast? = some s ∧
    s.closing = some e ∧ Within rules S m a ∧ a.control = .exec s frame ∧
    a.stack = .block b [] frame :: S ∧ Leaves rules e v a y ∧ n = y.step rules

/-- What a statement comes to: nothing, or what it leaves. -/
def Comes (rules : Rules) (s : Stmt) (m : Machine) (v : Value) (n : Machine) : Prop :=
  s.closing = none ∧ v = .nothing ∨ ∃ e, s.closing = some e ∧ Leaves rules e v m n

/-- How far the statements of a block have come: one of them is being executed, or they have come to
their end. -/
def Underway (rules : Rules) (S : List Pending) (b : Block) (frame : Ref) (m x : Machine) : Prop :=
  (∃ s rest a, s :: rest <:+ b.statements ∧ Within rules S m a ∧ a.control = .exec s frame ∧
    a.stack = .block b rest frame :: S ∧ Within rules (.block b rest frame :: S) a x) ∨
  x.stack = S ∧ TakesUp x.control ∧ ∀ v, x.control = .give v → Results rules S b frame m v x

section

variable {b : Block} {frame : Ref} {rest : List Stmt} {x : Machine}

lemma underway_runStatements (run : Within rules S m (x.runStatements b rest frame))
    (hs : x.stack = S) (hr : rest <:+ b.statements) (last : rest = [] → b.closing = none) :
    Underway rules S b frame m (x.runStatements b rest frame) := by
  cases rest with
  | nil =>
    refine .inr ⟨hs, trivial, fun v hv => .inl ⟨last rfl, ?_⟩⟩
    exact (Control.give.inj hv).symm
  | cons s rest =>
    refine .inl ⟨s, rest, _, hr, run, rfl, ?_, .refl⟩
    exact congrArg _ hs

lemma step_of_block (rules) (hr : rest <:+ b.statements) (hs : x.stack = .block b rest frame :: S)
    (hc : TakesUp x.control) :
    (∃ v, x.control = .give v ∧ rest = [] ∧
      x.step rules = ({ x with stack := S } : Machine).give v) ∨
    (∃ next, next <:+ b.statements ∧ (next = [] → b.closing = none) ∧
      x.step rules = ({ x with stack := S } : Machine).runStatements b next frame) ∨
    (x.step rules).stack = S ∧ TakesUp (x.step rules).control ∧
      ∀ v, (x.step rules).control ≠ .give v := by
  cases control : x.control with
  | eval e frame | exec s frame | apply callee arguments place => rw [control] at hc; cases hc
  | raise e =>
    refine .inr (.inr ?_)
    simp [step, control, hs, raiseThrough, TakesUp]
  | jump target v =>
    cases found : b.resumeAt target with
    | none =>
      refine .inr (.inr ?_)
      simp [step, control, hs, jumpThrough, found, TakesUp]
    | some next =>
      obtain ⟨suffix, last⟩ := Block.suffix_of_afterLabel found
      refine .inr (.inl ⟨next, suffix, ?_, ?_⟩)
      · rwa [Block.closing_eq]
      · simp only [step, control, hs, jumpThrough, found]
  | give v =>
    cases rest with
    | nil =>
      refine .inl ⟨v, rfl, rfl, ?_⟩
      simp only [step, control, hs, resume]
    | cons s rest =>
      refine .inr (.inl ⟨s :: rest, hr, (fun h => by cases h), ?_⟩)
      simp only [step, control, hs, resume, runStatements]

lemma Underway.step (ih : ∀ s ∈ b.statements, ∀ {a x : Machine} {v : Value},
      a.control = .exec s frame → Within rules a.stack a x → x.stack = a.stack →
      x.control = .give v → Comes rules s a v x)
    (h : Underway rules S b frame m x) (run : Within rules S m x)
    (hx : ¬ (x.stack = S ∧ TakesUp x.control)) : Underway rules S b frame m (x.step rules) := by
  rcases h with ⟨s, rest, a, hr, before, ha, hs, inside⟩ | ⟨stack, takes, -⟩
  · by_cases up : x.stack = .block b rest frame :: S ∧ TakesUp x.control
    · obtain ⟨stack, takes⟩ := up
      have rest_suffix : rest <:+ b.statements := (suffix_cons s rest).trans hr
      have later := run.step hx
      rcases step_of_block rules rest_suffix stack takes with
        ⟨v, given, rfl, next⟩ | ⟨next, suffix, last, goes⟩ | ⟨down, takes, none⟩
      · refine .inr ⟨by rw [next]; rfl, by rw [next]; trivial, fun u hu => ?_⟩
        rw [next] at hu
        cases hu
        have last := getLast?_of_suffix hr
        have member : s ∈ b.statements := hr.subset mem_cons_self
        rw [← hs] at inside stack
        rcases ih s member ha inside stack given with ⟨none, nothing⟩ | ⟨e, some, leaves⟩
        · refine .inl ⟨?_, nothing⟩
          rw [Block.closing_eq, last]
          exact none
        · exact .inr ⟨s, e, a, x, last, some, before, ha, hs, leaves, rfl⟩
      · rw [goes] at later ⊢
        exact underway_runStatements later rfl suffix last
      · exact .inr ⟨down, takes, fun v hv => absurd hv (none v)⟩
    · exact .inl ⟨s, rest, a, hr, before, ha, hs, inside.step up⟩
  · exact absurd ⟨stack, takes⟩ hx

lemma results_of_runStatements (ih : ∀ s ∈ b.statements, ∀ {a x : Machine} {v : Value},
      a.control = .exec s frame → Within rules a.stack a x → x.stack = a.stack →
      x.control = .give v → Comes rules s a v x)
    (run : Within rules m.stack (m.runStatements b b.statements frame) n) (hs : n.stack = m.stack)
    (hn : n.control = .give v) :
    Results rules m.stack b frame (m.runStatements b b.statements frame) v n := by
  have along : ∀ x, Within rules m.stack (m.runStatements b b.statements frame) x →
      Underway rules m.stack b frame (m.runStatements b b.statements frame) x := by
    intro x run
    induction run with
    | refl =>
      refine underway_runStatements .refl rfl suffix_rfl fun none => ?_
      rw [Block.closing_eq, none]
      rfl
    | step run hx underway => exact underway.step ih run hx
  rcases along n run with ⟨s, rest, a, -, -, -, stack, inside⟩ | ⟨-, -, results⟩
  · have long := (inside.suffix (stack ▸ suffix_rfl)).length_le
    rw [hs] at long
    exact absurd long (Nat.not_succ_le_self _)
  · exact results v hn

lemma comes_of_block (ih : ∀ s ∈ b.statements, ∀ {a x : Machine} {frame : Ref} {v : Value},
      a.control = .exec s frame → Within rules a.stack a x → x.stack = a.stack →
      x.control = .give v → Comes rules s a v x)
    (hc : m.control = .exec (.block b) frame) (run : Within rules m.stack (m.step rules) n)
    (hs : n.stack = m.stack) (hn : n.control = .give v) : Comes rules (.block b) m v n := by
  obtain ⟨x, inner, stack, next⟩ : ∃ (x : Machine) (inner : Ref), x.stack = m.stack ∧
      m.step rules = x.runStatements b b.statements inner := by
    simp only [step, hc, stepExec]
    split
    · exact ⟨m, frame, rfl, rfl⟩
    · exact ⟨(m.newFrame (.fresh frame b.slots)).2, _, rfl, rfl⟩
  have begun : ¬ (m.stack = m.stack ∧ TakesUp m.control) := by
    rintro ⟨-, takes⟩
    rw [hc] at takes
    cases takes
  rw [next, ← stack] at run
  rcases results_of_runStatements (fun s member => ih s member) run (hs.trans stack.symm) hn with
    ⟨none, nothing⟩ | ⟨s, e, a, y, last, some, before, ha, as, leaves, rfl⟩
  · exact .inl ⟨none, nothing⟩
  · refine .inr ⟨e, ?_, .block hc last (.head begun ?_) ha (stack ▸ as) leaves⟩
    · rw [Stmt.closing, Block.closing_eq, last]
      exact some
    · rw [next, ← stack]
      exact before

end

/-- **What a statement gives.**  A statement that ends with an expression leaves the value of this
expression; any other gives no value. -/
theorem comes_of_exec {frame} (hc : m.control = .exec s frame) (run : Within rules m.stack m n)
    (hs : n.stack = m.stack) (hn : n.control = .give v) : Comes rules s m v n := by
  induction size : sizeOf s using Nat.strong_induction_on generalizing s m n frame v with
  | _ k ih =>
    have rest := run.later (by rw [hc]; exact id) (by rw [hn]; trivial)
    cases s with
    | expression e place => exact .inr ⟨e, rfl, .expression hc run hs hn⟩
    | block b =>
      refine comes_of_block (fun s member _ _ _ _ hc run hs hn => ?_) hc rest hs hn
      refine ih (sizeOf s) ?_ hc run hs hn rfl
      have smaller := sizeOf_lt_of_mem member
      cases b with
      | mk statements slots place =>
        simp only [sizeOf_code] at size
        rw [Block.statements] at smaller
        omega
    | _ =>
      have mute : (m.step rules).Mute m.stack := mute_of_exec hc rfl rfl
      exact .inl ⟨rfl, (mute.within rest).nothing hs hn⟩

/-! ### Values of runs -/

variable {m' : Machine} {p : Program} {i : Ref} {fuel : Nat}

lemma step_of_run (rules) {caller} (hs : n.stack = [.run caller]) (hc : TakesUp n.control) :
    (n.step rules).stack = [] ∧ TakesUp (n.step rules).control ∧
      ∀ w, (n.step rules).control = .give w →
        ∃ v, n.control = .give v ∧ v.convert n.heap = .ok w (n.step rules).heap := by
  cases control : n.control with
  | eval e frame | exec s frame | apply callee arguments place => rw [control] at hc; cases hc
  | raise e => simp [step, control, hs, raiseThrough, leaveRun, TakesUp]
  | jump target v =>
    simp [step, control, hs, jumpThrough, leaveRun, Machine.raise, Machine.go, TakesUp]
  | give v =>
    simp only [step, control, hs, resume, onHeap_eq, leaveRun]
    cases converted : v.convert n.heap with
    | error e k =>
      refine ⟨rfl, trivial, fun w hw => ?_⟩
      cases hw
    | ok u k =>
      refine ⟨rfl, trivial, fun w hw => ⟨v, rfl, ?_⟩⟩
      cases hw
      rw [converted]
      rfl

lemma exists_end_of_run (h : m.run rules fuel i p = (.ok w, m')) : ∃ n v,
    Within rules [.run m.current] (m.atRest.startRun i p) n ∧ n.stack = [.run m.current] ∧
      n.control = .give v ∧ v.convert n.heap = .ok w m'.heap ∧ m' = n.step rules := by
  have run : Within rules [] (m.atRest.startRun i p) ((m.atRest.startRun i p).steps rules fuel) :=
    .steps fuel
  unfold Machine.run finish at h
  dsimp only at h
  split at h <;> cases h
  obtain ⟨stack, control⟩ := control_of_outcome? ‹_›
  obtain ⟨n, before, hs, takes, later⟩ := run.through (suffix_startRun m.atRest i p) stack
  obtain ⟨stack, takes, given⟩ := step_of_run rules hs takes
  have same := later.eq_of_end stack takes
  rw [same] at control ⊢
  obtain ⟨v, hv, converted⟩ := given w control
  exact ⟨n, v, before, hs, hv, converted, rfl⟩

/-- The value that a run leaves for `s`, the last statement of its program: `s` is executed when no
statement of the program is left. -/
structure Closes (rules : Rules) (m : Machine) (i : Ref) (p : Program) (s : Stmt) (a : Machine) :
    Prop where
  last : p.body.statements.getLast? = some s
  run : Within rules [.run m.current] (m.atRest.startRun i p) a
  control : a.control = .exec s (m.interpreter i).globals
  stack : a.stack = [.block p.body [] (m.interpreter i).globals, .run m.current]

/-- What is said about the value of a run: the boxed value of the last statement when it is an
expression, and else null. -/
def Promised (rules : Rules) (m : Machine) (i : Ref) (p : Program) (w : Value) (h : Heap) : Prop :=
  match p.body.statements.getLast? with
  | some (.expression e place) => ∃ a n v, Closes rules m i p (.expression e place) a ∧
      Within rules a.stack a n ∧ n.stack = a.stack ∧ n.control = .give v ∧
      v.convert n.heap = .ok w h
  | _ => w = .null

lemma exists_leaves_of_run (h : m.run rules fuel i p = (.ok w, m')) :
    p.body.closing = none ∧ w = .null ∨ ∃ s e a y v, s.closing = some e ∧ Closes rules m i p s a ∧
      Leaves rules e v a y ∧ v.convert y.heap = .ok w m'.heap ∧
      m' = (y.step rules).step rules := by
  obtain ⟨n, v, run, stack, control, converted, final⟩ := exists_end_of_run h
  obtain ⟨x, hx, start⟩ : ∃ x : Machine, x.stack = [.run m.current] ∧ m.atRest.startRun i p =
      x.runStatements p.body p.body.statements (m.interpreter i).globals := ⟨_, rfl, rfl⟩
  rw [start, ← hx] at run
  rw [← hx] at stack
  rcases results_of_runStatements (fun s _ => comes_of_exec) run stack control with
    ⟨none, rfl⟩ | ⟨s, e, a, y, last, some, before, ha, as, leaves, rfl⟩
  · exact .inl ⟨none, (EStateM.Result.ok.inj converted).1.symm⟩
  · rw [hx, ← start] at before
    rw [hx] at as
    refine .inr ⟨s, e, a, y, v, some, ⟨last, before, ha, as⟩, leaves, ?_, final⟩
    obtain ⟨ys, yc⟩ := leaves.ends
    rw [step_of_spent (ys.trans as) yc] at converted
    exact converted

/-- **What a run gives.**  The value of a run is null unless its program ends with an expression, within
as many blocks as there may be; then it is the boxed value that this expression gave last.  So it is as
promised exactly when a block at the end of the program that ends with an expression gives null. -/
theorem run_value (h : m.run rules fuel i p = (.ok w, m')) :
    (p.body.closing = none → w = .null) ∧
    (∀ e, p.body.closing = some e → ∃ s a y v, s.closing = some e ∧ Closes rules m i p s a ∧
      Leaves rules e v a y ∧ v.convert y.heap = .ok w m'.heap ∧ m' = (y.step rules).step rules) ∧
    (Promised rules m i p w m'.heap ↔
      ∀ b e, p.body.statements.getLast? = some (.block b) → b.closing = some e → w = .null) := by
  have ended := exists_leaves_of_run h
  have null (none : p.body.closing = none) : w = .null := by
    rcases ended with ⟨-, hw⟩ | ⟨s, e, a, y, v, some, closes, -⟩
    · exact hw
    · rw [Block.closing_eq, closes.last, Option.bind_some, some] at none
      cases none
  refine ⟨null, fun e he => ?_, ?_⟩
  · rcases ended with ⟨none, -⟩ | ⟨s, d, a, y, v, some, closes, rest⟩
    · rw [none] at he
      cases he
    · rw [Block.closing_eq, closes.last, Option.bind_some, some] at he
      cases he
      exact ⟨s, a, y, v, some, closes, rest⟩
  · rw [Block.closing_eq] at null ended
    unfold Promised
    cases last : p.body.statements.getLast? with
    | none =>
      rw [last] at null
      exact iff_of_true (null rfl) fun b e hb => by cases hb
    | some s =>
      rw [last] at null ended
      cases s with
      | expression e place =>
        refine iff_of_true ?_ fun b e hb => by cases hb
        rcases ended with ⟨none, -⟩ | ⟨s, d, a, y, v, some, closes, leaves, converted, -⟩
        · cases none
        · cases closes.last.symm.trans last
          obtain ⟨stack, control⟩ := leaves.ends
          exact ⟨a, y, v, closes, leaves.within, stack, control, converted⟩
      | block b =>
        refine ⟨fun hw _ _ _ _ => hw, fun hb => ?_⟩
        cases closing : b.closing with
        | none => exact null closing
        | some e => exact hb b e rfl closing
      | _ => exact iff_of_true (null rfl) fun b e hb => by cases hb

/-- A program that jumps back and ends with an expression. -/
theorem run_value_goto : ∃ (u : CompiledUnit) (w : Value),
    (DynScript.compile "var s = \"\"; label a; s = s + \"x\"; if (s != \"xx\") \x7b goto a; \x7d s;" {}
      .standard [] {}).result.toOption = some u ∧ w.string? = some "xx" ∧
    let m := initial .standard {} {} defaultLimit true
    (m.run {} 80 0 u.program).1.toOption = some w ∧
      Promised {} m 0 u.program w (m.run {} 80 0 u.program).2.heap := by
  have computed : (DynScript.compile
      "var s = \"\"; label a; s = s + \"x\"; if (s != \"xx\") \x7b goto a; \x7d s;" {} .standard []
      {}).result.toOption.any (fun u =>
        ((initial .standard {} {} defaultLimit true).run {} 80 0 u.program).1.toOption.any
          (fun w => w.string? == some "xx") &&
        !u.program.body.statements.getLast?.any Stmt.isBlock) = true := by
    decide +kernel
  obtain ⟨u, hu, computed⟩ := (Option.any_eq_true _ _).1 computed
  obtain ⟨value, last⟩ := (Bool.and_eq_true _ _).mp computed
  obtain ⟨w, hw, text⟩ := (Option.any_eq_true _ _).1 value
  refine ⟨u, w, hu, eq_of_beq text, hw, ?_⟩
  have run := run_value (Prod.ext (eq_ok_of_toOption hw) rfl)
  refine run.2.2.2 fun b e hb _ => ?_
  rw [hb] at last
  cases last

/-- A block at the end of a program passes the value of its last statement on. -/
theorem run_value_block : ∃ (u : CompiledUnit) (w : Value),
    (DynScript.compile "\x7b 1; \x7d" {} .standard [] {}).result.toOption = some u ∧ u.ok ∧
    let m := initial .standard {} {} defaultLimit true
    (m.run {} 20 0 u.program).1.toOption = some w ∧ w.number?.isSome ∧
      ¬ Promised {} m 0 u.program w (m.run {} 20 0 u.program).2.heap := by
  have computed : (DynScript.compile "\x7b 1; \x7d" {} .standard [] {}).result.toOption.any (fun u =>
      u.ok && ((initial .standard {} {} defaultLimit true).run {} 20 0 u.program).1.toOption.any
        (fun w => w.number?.isSome) && u.program.body.statements.getLast?.any Stmt.isBlock) = true := by
    decide +kernel
  obtain ⟨u, hu, computed⟩ := (Option.any_eq_true _ _).1 computed
  obtain ⟨value, last⟩ := (Bool.and_eq_true _ _).mp computed
  obtain ⟨ok, value⟩ := (Bool.and_eq_true _ _).mp value
  obtain ⟨w, hw, number⟩ := (Option.any_eq_true _ _).1 value
  obtain ⟨s, hs, isBlock⟩ := (Option.any_eq_true _ _).1 last
  obtain ⟨b, rfl⟩ := Stmt.exists_of_isBlock isBlock
  refine ⟨u, w, hu, ok, hw, number, ?_⟩
  unfold Promised
  rw [hs]
  rintro rfl
  cases number

end Machine

end DynScript

import DynScript.Proofs.Evaluation

/-!
# Collected warnings

A warning is logged and handed to every interpreter with a run under way.  Runs are nested: a text that
a script evaluates is run by a new interpreter within the run of the script.

Main declarations: `Machine.Running`, `Machine.Within.running`.
-/

namespace DynScript

open List

/-- The warnings of running scripts in the log, in order. -/
def World.warnings (w : World) : List String :=
  (w.log.toList.filter fun e => e.level = .warning ∧ e.source = .machine).map (·.message)

/-- Whether a pending part is the end of a run. -/
def Pending.isRun : Pending → Bool
  | .run _ => true
  | _ => false

namespace Machine

variable {rules : Rules} {A : Heap → Heap → Prop} {m n o s : Machine} {i : Ref}

/-! ### Warnings and interpreters -/

lemma warnings_send (w : World) (l) : (w.send l).warnings =
    w.warnings ++ (l.filter fun e => e.level = .warning ∧ e.source = .machine).map (·.message) := by
  simp [World.warnings, World.send]

lemma warnings_send_of_ne {w : World} {l} (hl : ∀ e ∈ l, e.source ≠ .machine) :
    (w.send l).warnings = w.warnings := by
  have none : (l.filter fun e => e.level = .warning ∧ e.source = .machine) = [] := by
    rw [filter_eq_nil_iff]
    intro e he
    simp [hl e he]
  rw [warnings_send, none, map_nil, append_nil]

lemma warnings_foldl (l : List Ref) (text : String) (hi : i < m.interpreters.size) :
    let n := l.foldl (fun m r => m.updateInterpreter r fun i =>
      { i with warnings := i.warnings.push text }) m
    n.world = m.world ∧ n.collectors = m.collectors ∧ n.stack = m.stack ∧
      n.interpreters.size = m.interpreters.size ∧
      (n.interpreter i).warnings.toList =
        (m.interpreter i).warnings.toList ++ List.replicate (l.count i) text := by
  induction l generalizing m with
  | nil => simp
  | cons r l ih =>
    have size : i < (m.updateInterpreter r fun i =>
        { i with warnings := i.warnings.push text }).interpreters.size := by
      simpa [updateInterpreter] using hi
    obtain ⟨world, collectors, stack, count, warnings⟩ := ih size
    refine ⟨world, collectors, stack, count.trans (by simp [updateInterpreter]), ?_⟩
    rw [foldl_cons, warnings, interpreter_updateInterpreter, count_cons]
    by_cases hr : r = i
    · simp [hr, hi, replicate_succ]
    · simp [hr]

/-! ### Hearing -/

/-- The warnings that were logged from `m` to `n` have been added to the list of the interpreter `i`,
and nothing else. -/
def Hears (i : Ref) (m n : Machine) : Prop :=
  ∃ ws, n.world.warnings = m.world.warnings ++ ws ∧
    (n.interpreter i).warnings.toList = (m.interpreter i).warnings.toList ++ ws

lemma Hears.refl (i m) : Hears i m m :=
  ⟨[], by simp, by simp⟩

lemma Hears.trans (h : Hears i m n) (k : Hears i n o) : Hears i m o := by
  obtain ⟨ws, log, list⟩ := h
  obtain ⟨vs, log', list'⟩ := k
  exact ⟨ws ++ vs, by rw [log', log, append_assoc], by rw [list', list, append_assoc]⟩

/-- From `m` to `n` no run is begun or ended, and the interpreter `i` has heard everything. -/
structure Heeds (i : Ref) (m n : Machine) : Prop where
  hears : Hears i m n
  collectors : n.collectors = m.collectors
  interpreters : m.interpreters.size ≤ n.interpreters.size
  stack : ∃ pushed, n.stack = pushed ++ m.stack ∧ ∀ p ∈ pushed, p.isRun = false

namespace Heeds

lemma of_eq (world : n.world.warnings = m.world.warnings)
    (list : (n.interpreter i).warnings = (m.interpreter i).warnings)
    (collectors : n.collectors = m.collectors)
    (interpreters : m.interpreters.size ≤ n.interpreters.size) (pushed)
    (stack : n.stack = pushed ++ m.stack) (runs : ∀ p ∈ pushed, p.isRun = false) : Heeds i m n :=
  ⟨⟨[], by simp [world], by simp [list]⟩, collectors, interpreters, pushed, stack, runs⟩

lemma refl (i m) : Heeds i m m :=
  .of_eq rfl rfl rfl (le_rfl) [] rfl (forall_mem_nil _)

lemma trans (h : Heeds i m n) (k : Heeds i n o) : Heeds i m o where
  hears := h.hears.trans k.hears
  collectors := k.collectors.trans h.collectors
  interpreters := le_trans h.interpreters k.interpreters
  stack := by
    obtain ⟨pushed, hp, plain⟩ := h.stack
    obtain ⟨pushed', hp', plain'⟩ := k.stack
    refine ⟨pushed' ++ pushed, by rw [hp', hp, append_assoc], fun p h => ?_⟩
    exact (mem_append.1 h).elim (plain' p) (plain p)

lemma pend {p : Pending} (hp : p.isRun = false) (c) :
    Heeds i m { m with control := c, stack := p :: m.stack } :=
  .of_eq rfl rfl rfl (le_rfl) [p] rfl (by simpa using hp)

lemma warn (w) (hi : i < m.interpreters.size) (once : m.collectors.count i = 1) :
    Heeds i m (m.warn w) := by
  let logged := m.onWorld (·.send [⟨.warning, .machine, w.text⟩])
  obtain ⟨world, collectors, stack, size, warnings⟩ := warnings_foldl (m := logged)
    logged.collectors w.text hi
  have log : logged.world.warnings = m.world.warnings ++ [w.text] := by
    simp [logged, onWorld, warnings_send]
  refine ⟨⟨[w.text], ?_, ?_⟩, collectors, le_of_eq size.symm, [], stack, forall_mem_nil _⟩
  · exact (congrArg World.warnings world).trans log
  · refine warnings.trans ?_
    rw [show logged.collectors.count i = 1 from once]
    rfl

end Heeds

lemma isRun_of_isPlain {p : Pending} (h : p.isPlain) : p.isRun = false := by
  cases p <;> first | rfl | cases h

/-- **In a step that only works, an interpreter that collects hears everything.** -/
theorem Works.heeds (h : Works A m n) (hi : i < m.interpreters.size)
    (once : m.collectors.count i = 1) : Heeds i m n := by
  induction h with
  | refl m => exact .refl i m
  | trans h k ih ih' =>
    have first := ih hi once
    exact first.trans (ih' (lt_of_lt_of_le hi first.interpreters) (first.collectors ▸ once))
  | go m c => exact { Heeds.refl i m with }
  | pend m hp c => exact .pend (isRun_of_isPlain hp) c
  | heap m hh => exact { Heeds.refl i m with }
  | function m code frame => exact { Heeds.refl i m with }
  | frames m F => exact { Heeds.refl i m with }
  | world m hw =>
    refine .of_eq ?_ rfl rfl (le_rfl) [] rfl (forall_mem_nil _)
    simp only [World.warnings, hw]
  | send m supply hl =>
    exact .of_eq (warnings_send_of_ne hl) rfl rfl (le_rfl) [] rfl
      (forall_mem_nil _)
  | warn m w => exact .warn w hi once

/-! ### Calls and records -/

lemma warnings_count (m : Machine) (r i) (f : Nat → Nat) :
    ((m.updateInterpreter r fun n => { n with depth := f n.depth }).interpreter i).warnings =
      (m.interpreter i).warnings := by
  rw [interpreter_updateInterpreter]
  split <;> rfl

lemma heeds_enter (m) (c self arguments place) : Heeds i m (m.enter c self arguments place) := by
  unfold Machine.enter
  dsimp only
  split
  · exact { Heeds.refl i m with }
  · exact .of_eq rfl (warnings_count m c.owner i (· + 1)) rfl (by simp [newFrame, updateInterpreter])
      [_] rfl (by simp [Pending.isRun])

lemma heeds_leaveCall (m) (owner caller) : Heeds i m (m.leaveCall owner caller) :=
  .of_eq rfl (warnings_count m owner i (· - 1)) rfl (by simp [leaveCall, updateInterpreter])
    [] rfl (forall_mem_nil _)

lemma heeds_evalFields (m) (record rest frame place) :
    Heeds i m (m.evalFields record rest frame place) := by
  unfold Machine.evalFields
  split
  · exact { Heeds.refl i m with }
  · exact .pend rfl _

lemma heeds_newInterpreter (hi : i < m.interpreters.size) (limit : Int) (relinks : Bool) :
    Heeds i m (m.newInterpreter limit relinks).2 := by
  refine .of_eq rfl ?_ rfl (by simp [newInterpreter, newFrame]) [] rfl
    (forall_mem_nil _)
  simp only [newInterpreter, newFrame, interpreter, Array.getD_eq_getD_getElem?, Array.getElem?_push,
    if_neg (ne_of_lt hi)]

/-! ### Runs -/

/-- A run begun on the interpreter `i` in the state `m` is under way in the state `s`: it has heard
everything, and the runs nested in it are on other interpreters. -/
structure Running (m : Machine) (i : Ref) (s : Machine) : Prop where
  hears : Hears i m s
  known : i < s.interpreters.size
  nested : ∃ above others, s.stack = above ++ .run m.current :: m.stack ∧
    s.collectors = others ++ i :: m.collectors ∧ others.length = above.countP (·.isRun) ∧ i ∉ others

/-- A run that was begun on the interpreter `i` in the state `m` has ended in the state `s`, with a
value or an error. -/
structure Over (m : Machine) (i : Ref) (s : Machine) : Prop where
  hears : Hears i m s
  stack : s.stack = m.stack
  collectors : s.collectors = m.collectors
  control : (∃ v, s.control = .give v) ∨ ∃ e, s.control = .raise e

namespace Running

variable (hc : i ∉ m.collectors)

include hc in
lemma once (h : Running m i s) : s.collectors.count i = 1 := by
  obtain ⟨above, others, -, collectors, -, apart⟩ := h.nested
  rw [collectors, count_append, count_cons_self, count_eq_zero_of_not_mem apart,
    count_eq_zero_of_not_mem hc]

lemma heeds (h : Running m i s) (k : Heeds i s n) : Running m i n where
  hears := h.hears.trans k.hears
  known := lt_of_lt_of_le h.known k.interpreters
  nested := by
    obtain ⟨above, others, stack, collectors, length, apart⟩ := h.nested
    obtain ⟨pushed, hp, plain⟩ := k.stack
    refine ⟨pushed ++ above, others, by rw [hp, stack, append_assoc],
      k.collectors.trans collectors, ?_, apart⟩
    have none : pushed.countP (·.isRun) = 0 := by
      rw [countP_eq_zero]
      exact fun p h => by simp [plain p h]
    rw [countP_append, none, Nat.zero_add, length]

lemma pop (h : Running m i s) {p} {stack} (hs : s.stack = p :: stack) (hp : p.isRun = false) :
    Running m i { s with stack := stack } where
  hears := h.hears
  known := h.known
  nested := by
    obtain ⟨above, others, split, collectors, length, apart⟩ := h.nested
    rw [hs] at split
    cases above with
    | nil =>
      obtain ⟨rfl, -⟩ := List.cons.inj split
      cases hp
    | cons q above =>
      obtain ⟨rfl, rfl⟩ := List.cons.inj split
      refine ⟨above, others, rfl, collectors, ?_, apart⟩
      rw [length, countP_cons_of_neg (by simp [hp])]

lemma startRun (h : Running m i s) {j} (hj : j ≠ i) (p) : Running m i (s.startRun j p) := by
  obtain ⟨above, others, stack, collectors, length, apart⟩ := h.nested
  have begun (F : Array Frame) (c : Control) : Running m i { s with
      frames := F, collectors := j :: s.collectors, stack := .run s.current :: s.stack,
      current := j, control := c } := by
    refine ⟨h.hears, h.known, .run s.current :: above, j :: others, ?_, ?_, ?_, ?_⟩
    · exact congrArg _ stack
    · exact congrArg _ collectors
    · simp [length, Pending.isRun]
    · simp [Ne.symm hj, apart]
  unfold Machine.startRun Machine.runStatements
  dsimp only
  split
  · exact begun _ _
  · exact (begun _ s.control).heeds (.pend rfl _)

/-- **The end of a run**: of the one at the bottom, or of one that is nested in it. -/
theorem leaveRun (h : Running m i s) {caller stack} (hs : s.stack = .run caller :: stack) (k) {c}
    (hc : (∃ v, c = .give v) ∨ ∃ e, c = .raise e) :
    Running m i { ({ s with stack := stack } : Machine).leaveRun caller with heap := k, control := c } ∨
    Over m i { ({ s with stack := stack } : Machine).leaveRun caller with heap := k, control := c } := by
  obtain ⟨above, others, split, collectors, length, apart⟩ := h.nested
  rw [hs] at split
  cases above with
  | nil =>
    -- No run is nested in the one that ends.
    obtain ⟨-, rfl⟩ := List.cons.inj split
    obtain rfl : others = [] := length_eq_zero_iff.1 length
    refine .inr ⟨h.hears, rfl, ?_, hc⟩
    rw [collectors]
    rfl
  | cons q above =>
    -- The collector of the innermost run goes with it.
    obtain ⟨rfl, rfl⟩ := List.cons.inj split
    rw [countP_cons_of_pos rfl] at length
    obtain ⟨j, others, rfl⟩ := exists_cons_of_length_eq_add_one length
    refine .inl ⟨h.hears, h.known, above, others, rfl, ?_, by simpa using length,
      fun member => apart (mem_cons_of_mem _ member)⟩
    rw [collectors]
    rfl

include hc

/-- **One step of a run.** -/
theorem step (h : Running m i s) : Running m i (s.step rules) ∨ Over m i (s.step rules) := by
  have once := h.once hc
  have stride : Stride (fun _ _ => True) s (s.step rules) :=
    stride_step (fun _ _ _ => trivial) (fun _ _ _ _ => trivial) s
  generalize s.step rules = n at stride
  cases stride with
  | works w => exact .inl (h.heeds (w.heeds h.known once))
  | resumes hs hp w =>
    refine .inl ((h.pop hs ?_).heeds (w.heeds h.known once))
    rcases hp with hp | ⟨_, _, _, _, _, rfl⟩
    · exact isRun_of_isPlain hp
    · rfl
  | enters w hc room self arguments place =>
    exact .inl (h.heeds ((w.heeds h.known once).trans (heeds_enter _ _ _ _ _)))
  | @leavesCall _ _ owner caller _ _ hs w =>
    have left := (h.pop hs rfl).heeds (heeds_leaveCall _ owner caller)
    exact .inl (left.heeds (w.heeds left.known (left.once hc)))
  | leavesRun hs hh hc => exact h.leaveRun hs _ hc
  | @begins o w p place =>
    -- The nested run is on an interpreter made for it, so it is not the one that is listened to.
    have told := h.heeds (w.heeds h.known once)
    have engaged := told.heeds (heeds_newInterpreter told.known defaultLimit true)
    have called := engaged.heeds (Heeds.pend (p := .site place) rfl
      (o.newInterpreter defaultLimit true).2.control)
    exact .inl (called.startRun (ne_of_gt told.known) p)
  | builds hc F inner =>
    have made : Running m i { s with heap := (s.heap.newRecord {}).2, frames := F } := { h with }
    exact .inl (made.heeds (heeds_evalFields _ _ _ _ _))
  | storesItem a =>
    obtain ⟨p, hs, hp⟩ := a.stack_eq
    exact .inl { h.pop hs (isRun_of_isPlain hp) with }
  | storesField a =>
    obtain ⟨p, hs, hp⟩ := a.stack_eq
    exact .inl { h.pop hs (isRun_of_isPlain hp) with }
  | @fills r name rest frame place _ stack hc hs k hk v =>
    have stored : Running m i { s with stack := stack, heap := k.setField r name v } :=
      { h.pop hs rfl with }
    exact .inl (stored.heeds (heeds_evalFields _ r rest frame place))

end Running

lemma running_startRun (hi : i < m.interpreters.size) (p) : Running m i (m.startRun i p) := by
  have begun (F : Array Frame) (c : Control) : Running m i { m with
      frames := F, collectors := i :: m.collectors, stack := .run m.current :: m.stack,
      current := i, control := c } :=
    ⟨.refl i m, hi, [], [], rfl, rfl, rfl, not_mem_nil⟩
  unfold Machine.startRun Machine.runStatements
  dsimp only
  split
  · exact begun _ _
  · exact (begun _ m.control).heeds (.pend rfl _)

/-- **A run is under way until it is over.** -/
theorem Within.running (hi : i < m.interpreters.size) (hc : i ∉ m.collectors) {p}
    (run : Within rules m.stack (m.startRun i p) s) : Running m i s ∨ Over m i s := by
  induction run with
  | refl => exact .inl (running_startRun hi p)
  | step _ open' ih =>
    rcases ih with under | behind
    · exact under.step hc
    -- What has ended is not carried on.
    · refine absurd ⟨behind.stack, ?_⟩ open'
      rcases behind.control with ⟨v, hv⟩ | ⟨e, he⟩
      · rw [hv]
        trivial
      · rw [he]
        trivial

end Machine

end DynScript

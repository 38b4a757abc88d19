import DynScript.Proofs.Endings
import DynScript.Proofs.FitStep
import DynScript.Proofs.JointParses

/-!
# Running a passage of a unit

A unit that is a passage of a joint one can be run on its own.

Main declarations: `Passage`, `Passage.settles_finish`.
-/

namespace DynScript

/-! ### Numbers -/

/-- Numbers below `n` and numbers below `n'` are related one to one; those in `R` and those in `R'` are
set apart. -/
structure Pairing (R R' : Nat → Prop) (r : Nat → Nat → Prop) (n n' : Nat) : Prop where
  exact : ∀ {i i' j j' : Nat}, r i i' → r j j' → (i = j ↔ i' = j')
  left : ∀ {i i' : Nat}, r i i' → i < n ∧ ¬ R i
  right : ∀ {i i' : Nat}, r i i' → i' < n' ∧ ¬ R' i'
  apart : ∀ {i : Nat}, R i → i < n
  apart' : ∀ {i : Nat}, R' i → i < n'

lemma Pairing.extend {R R' : Nat → Prop} {r : Nat → Nat → Prop} {n n' k k' : Nat}
    (h : Pairing R R' r n n') (hk : n ≤ k) (hn : k + n' = k' + n) :
    Pairing R R' (fun i i' => r i i' ∨ Moves n k n' i i') k k' where
  exact := by
    rintro i i' j j' (hi | ⟨hi, -, he⟩) (hj | ⟨hj, -, hf⟩)
    · exact h.exact hi hj
    · have left := (h.left hi).1
      have right := (h.right hi).1
      omega
    · have left := (h.left hj).1
      have right := (h.right hj).1
      omega
    · omega
  left := by
    rintro i i' (hi | ⟨hi, hl, -⟩)
    · exact ⟨lt_of_lt_of_le (h.left hi).1 hk, (h.left hi).2⟩
    · exact ⟨hl, fun hr => not_lt.2 hi (h.apart hr)⟩
  right := by
    rintro i i' (hi | ⟨hi, hl, he⟩)
    · have := (h.right hi).1
      exact ⟨by omega, (h.right hi).2⟩
    · refine ⟨by omega, fun hr => ?_⟩
      have := h.apart' hr
      omega
  apart hr := lt_of_lt_of_le (h.apart hr) hk
  apart' hr := by
    have := h.apart' hr
    omega

lemma Pairing.release {R R' : Nat → Prop} {r q : Nat → Nat → Prop} {n n' : Nat}
    (h : Pairing R R' r n n')
    (exact : ∀ {i i' j j' : Nat}, q i i' → q j j' → (i = j ↔ i' = j'))
    (hq : ∀ {i i' : Nat}, q i i' → r i i' ∨ R i ∧ R' i') :
    Pairing (fun _ => False) (fun _ => False) (fun i i' => r i i' ∨ q i i') n n' where
  exact := by
    -- A number that was set apart is none of those related before.
    have mixed {i i' j j' : Nat} (hi : r i i') (hj : q j j') : i = j ↔ i' = j' := by
      rcases hq hj with hj | ⟨hj, hj'⟩
      · exact h.exact hi hj
      · refine ⟨?_, ?_⟩
        · rintro rfl
          exact absurd hj (h.left hi).2
        · rintro rfl
          exact absurd hj' (h.right hi).2
    rintro i i' j j' (hi | hi) (hj | hj)
    · exact h.exact hi hj
    · exact mixed hi hj
    · exact ⟨fun e => ((mixed hj hi).1 e.symm).symm, fun e => ((mixed hj hi).2 e.symm).symm⟩
    · exact exact hi hj
  left := by
    rintro i i' (hi | hi)
    · exact ⟨(h.left hi).1, id⟩
    · exact ⟨(hq hi).elim (fun hi => (h.left hi).1) fun hi => h.apart hi.1, id⟩
  right := by
    rintro i i' (hi | hi)
    · exact ⟨(h.right hi).1, id⟩
    · exact ⟨(hq hi).elim (fun hi => (h.right hi).1) fun hi => h.apart' hi.2, id⟩
  apart := False.elim
  apart' := False.elim

/-- The numbers of slots and labels that are set apart, on either side. -/
structure Reserve where
  slots : Nat → Prop
  slots' : Nat → Prop
  labels : Nat → Prop
  labels' : Nat → Prop

/-- Nothing is set aside. -/
def Reserve.none : Reserve :=
  ⟨fun _ => False, fun _ => False, fun _ => False, fun _ => False⟩

/-- Places and numbers are related as they are to be, those that are set apart to none. -/
structure Reserve.Tied (R : Reserve) (places : Location → Location → Prop) (w : Likeness)
    (s s' : Supply) : Prop where
  places_eq : w.places = places
  slots : Pairing R.slots R.slots' w.slots s.slot s'.slot
  labels : Pairing R.labels R.labels' w.labels s.label s'.label

namespace Reserve.Tied

variable {R : Reserve} {places : Location → Location → Prop} {w : Likeness} {s s' : Supply}

lemma exact (h : R.Tied places w s s') : w.Exact :=
  ⟨h.slots.exact, h.labels.exact⟩

lemma compile (hp : ∀ p, places p p) (h : R.Tied places w s s') (source) (natives : Registry)
    (hn : natives.Allowed w) : ∃ w', w.Le w' ∧ w'.bound = w.bound ∧
      R.Tied places w' (compile source Machine.evalOptions natives [] s).supply
        (compile source Machine.evalOptions natives [] s').supply ∧
      (compile source Machine.evalOptions natives [] s).log =
        (compile source Machine.evalOptions natives [] s').log ∧
      LikeCompiled w' (compile source Machine.evalOptions natives [] s).result
        (compile source Machine.evalOptions natives [] s').result := by
  let c := DynScript.compile source Machine.evalOptions natives [] s
  obtain ⟨slot_le, label_le⟩ := supply_le_compile source Machine.evalOptions natives [] s
  let w' : Likeness :=
    { slots := fun i i' => w.slots i i' ∨ Moves s.slot c.supply.slot s'.slot i i'
      labels := fun i i' => w.labels i i' ∨ Moves s.label c.supply.label s'.label i i'
      places := w.places
      bound := w.bound }
  have le : w.Le w' := ⟨fun _ _ => .inl, fun _ _ => .inl, fun _ _ => id, fun _ => id⟩
  obtain ⟨log, result, slots, labels⟩ := like_compile (w := w') s s' source Machine.evalOptions hn
    (fun p => by rw [show w'.places = places from h.places_eq]; exact hp p) .nil
    (fun k hk => Or.inr ⟨Nat.le_add_right _ _, hk, by omega⟩)
    (fun k hk => Or.inr ⟨Nat.le_add_right _ _, hk, by omega⟩) (Nat.le_refl _) (Nat.le_refl _)
  exact ⟨w', le, rfl, ⟨h.places_eq, h.slots.extend slot_le slots, h.labels.extend label_le labels⟩, log,
    result⟩

end Reserve.Tied

/-! ### Passages -/

/-- A unit and the joint one that it is a passage of, run on the interpreter `i` with the global
frame `frame`: their places and numbers, the variables that only the second machine has, and the
statements before, in and after the passage.  No jump of the passage leads before it. -/
structure Passage where
  places : Location → Location → Prop
  places_refl : ∀ p, places p p
  reserve : Reserve
  spare : Ref → List (Nat × Value)
  spare_apart : ∀ r, ∀ c ∈ spare r, reserve.slots' c.1
  i : Ref
  frame : Ref
  caller : Ref
  base : Likeness
  unit : Block
  joint : Block
  before : List Stmt
  own : List Stmt
  after : List Stmt
  joint_eq : joint.statements = before ++ (own ++ after)
  like : List.Forall₂ (Stmt.Like base) unit.statements own
  clear : ∀ {w : Likeness}, base.Le w → w.Exact → ∀ {t t' : Label}, t.Like w t' →
    Stmt.LabelAmong unit.statements t.id → ¬ Stmt.LabelAmong before t'.id

namespace Block

variable {t : Label} {l l' : List Stmt}

lemma afterLabel_append_of_some {r} (h : afterLabel t l = some r) :
    afterLabel t (l ++ l') = some (r ++ l') := by
  fun_induction afterLabel t l with
  | case1 => cases h
  | case2 x place rest he =>
    cases h
    simp [afterLabel, he]
  | case3 x place rest hne ih => simpa [afterLabel, hne] using ih h
  | case4 s rest hs ih => simpa [afterLabel, hs] using ih h

lemma afterLabel_append_of_none (h : afterLabel t l = none) :
    afterLabel t (l ++ l') = afterLabel t l' := by
  fun_induction afterLabel t l with
  | case1 => rfl
  | case2 => cases h
  | case3 x place rest hne ih => simpa [afterLabel, hne] using ih h
  | case4 s rest hs ih => simpa [afterLabel, hs] using ih h

end Block

namespace Passage

variable (P : Passage)

/-- Machines that run the unit and the joint one, the statements that are left being alike up to the end
of the passage. -/
def setting : Setting where
  loose := False
  spare := P.spare
  foot w c cs s s' := P.base.Le w ∧ c = P.i ∧ cs = [P.i] ∧ ∃ rest rest',
    s = [.block P.unit rest P.frame, .run P.caller] ∧
    s' = [.block P.joint (rest' ++ P.after) P.frame, .run P.caller] ∧
    List.Forall₂ (Stmt.Like w) rest rest'
  tied := P.reserve.Tied P.places
  foot_mono := by
    rintro w w' c cs s s' le ⟨base, hc, hcs, rest, rest', hs, hs', like⟩
    exact ⟨base.trans le, hc, hcs, rest, rest', hs, hs', like.imp fun _ _ => .mono le⟩
  exact := Reserve.Tied.exact
  apart ht r c hc i hi := (ht.slots.right hi).2 (P.spare_apart r c hc)
  compile ht := ht.compile P.places_refl

/-- The setting at the end of both runs. -/
def closing : Setting :=
  { P.setting with
    foot := fun w c cs s s' => P.base.Le w ∧ c = P.i ∧ cs = [P.i] ∧ s = [.run P.caller] ∧
      s' = [.run P.caller]
    foot_mono := fun le h => ⟨h.1.trans le, h.2⟩ }

/-- The first machine has just left the global block of the unit with a value, and the second one is
about to execute what comes after the passage. -/
inductive Completes (rules : Rules) (n n' : Machine) : Prop where
  | mk {w} {A : Container → Prop} {k : Machine} {v v' : Value} (le : P.base.Le w)
    (akin : Machine.Akin P.closing w A n k) (stack : n.stack = [.run P.caller])
    (stack' : k.stack = [.run P.caller]) (current : n.current = P.i) (collectors : n.collectors = [P.i])
    (hv : v.Held False A v') (control : n.control = .give v)
    (next : n' = k.resume rules (.block P.joint P.after P.frame) v')

/-- Both machines are about to leave their runs, with like values or errors. -/
inductive Closes (n n' : Machine) : Prop where
  | mk {w} {A : Container → Prop} (le : P.base.Le w)
    (akin : Machine.Akin P.closing w A n n') (stack : n.stack = [.run P.caller])
    (stack' : n'.stack = [.run P.caller]) (control : n.control.Like w False A n'.control)
    (takes : Machine.TakesUp n.control)

/-- Both machines have just left the global block with the same error. -/
def Fails (n n' : Machine) : Prop :=
  P.Closes n n' ∧ ∃ e, n.control = .raise e

variable {P} {rules : Rules} {w : Likeness} {A : Container → Prop} {m m' : Machine}

open Machine

lemma akin_closing (h : Akin P.setting w A m m') (le : P.base.Le w) (hc : m.current = P.i)
    (hcs : m.collectors = [P.i]) (c c') :
    Akin P.closing w A { m with control := c, stack := [.run P.caller] }
      { m' with control := c', stack := [.run P.caller] } :=
  { h with tied := h.tied, stack := .foot ⟨le, hc, hcs, rfl, rfl⟩ }

lemma runStatements_passage (h : Akin P.setting w A m m') (le : P.base.Le w)
    (hc : m.current = P.i) (hcs : m.collectors = [P.i]) {rest rest'}
    (hr : List.Forall₂ (Stmt.Like w) rest rest') {v v' : Value} (hv : v.Held False A v') :
    let n := { m with stack := [.run P.caller] }.resume rules (.block P.unit rest P.frame) v
    let n' := { m' with stack := [.run P.caller] }.resume rules
      (.block P.joint (rest' ++ P.after) P.frame) v'
    Like P.setting w A n n' ∨ P.Completes rules n n' := by
  cases hr with
  | nil =>
    refine .inr (.mk le (akin_closing h le hc hcs (.give v) m'.control) rfl rfl hc hcs hv rfl ?_)
    rfl
  | @cons s s' rest rest' hs hr =>
    refine .inl ⟨w, A, .refl w, le_rfl, { h with stack := .foot ?_ }, .exec P.frame hs⟩
    exact ⟨le, hc, hcs, rest, rest', rfl, rfl, hr⟩

lemma resume_block_nothing (rules) (m : Machine) (b rest frame) :
    m.resume rules (.block b rest frame) .nothing = m.runStatements b rest frame := by
  cases rest <;> rfl

lemma exists_resumeAt {t t' : Label} (le : P.base.Le w) (exact : w.Exact) (ht : t.Like w t')
    (among : Stmt.LabelAmong P.unit.statements t.id) : ∃ r r', P.unit.resumeAt t = some r ∧
      P.joint.resumeAt t' = some (r' ++ P.after) ∧ List.Forall₂ (Stmt.Like w) r r' := by
  have found := rel_afterLabel exact ht (P.like.imp fun _ _ => .mono le)
  -- The statements before the passage do not have the label, and so it is found in the passage.
  have absent : Block.afterLabel t' P.before = none :=
    Option.not_isSome_iff_eq_none.1 fun known =>
      P.clear le exact ht among (Block.isSome_afterLabel.1 known)
  obtain ⟨r, hr⟩ := Option.isSome_iff_exists.1 (Block.isSome_afterLabel.2 among)
  rw [hr] at found
  obtain ⟨r', hr', like⟩ : ∃ r', Block.afterLabel t' P.own = some r' ∧
      List.Forall₂ (Stmt.Like w) r r' := by
    generalize Block.afterLabel t' P.own = o at found
    cases found with
    | some like => exact ⟨_, rfl, like⟩
  refine ⟨r, r', hr, ?_, like⟩
  rw [Block.resumeAt, P.joint_eq, Block.afterLabel_append_of_none absent]
  exact Block.afterLabel_append_of_some hr'

variable {x : Ref → List Slot} {n n' : Machine}

/-- **Machines that run a passage take like steps until they leave it.** -/
theorem step (hh : rules.host.Uniform False)
    (fits : m.Fits ⟨⟨False, True⟩, none⟩ x) (h : Akin P.setting w A m m')
    (hc : m.control.Like w False A m'.control) :
    Like P.setting w A (m.step rules) (m'.step rules) ∨ P.Completes rules (m.step rules)
      (m'.step rules) ∨ P.Fails (m.step rules) (m'.step rules) := by
  rcases like_step (hh.fair False) (.inr rfl) h hc False.elim with
    next | ⟨takes, le, hi, his, rest, rest', hs, hs', hr⟩
  · exact .inl next
  · have lands := fits.control
    unfold Machine.step
    rw [hs] at lands ⊢
    rw [hs']
    generalize m.control = c at hc lands takes
    generalize m'.control = c' at hc
    cases hc with
    | give hv =>
      exact (runStatements_passage (m := { m with control := _ }) { h with } le hi his hr hv).imp_right
        .inl
    | @jump t t' v v' ht hv =>
      -- Code that compiles without errors jumps to labels it has, here to one of the global block.
      have among : Stmt.LabelAmong P.unit.statements t.id :=
        (owned_block.1 (lands trivial)).resolve_right (by simp [Owned, Pending.Owns, Pending.Passes])
      obtain ⟨r, r', here, there, like⟩ := exists_resumeAt le h.exact ht among
      simp only [jumpThrough, here, there]
      rw [← resume_block_nothing rules, ← resume_block_nothing rules]
      exact (runStatements_passage (m := { m with control := _ }) { h with } le hi his like
        .nothing).imp_right .inl
    | raise he =>
      exact .inr (.inr ⟨.mk le (akin_closing h le hi his _ _) rfl rfl (.raise he) trivial, _, rfl⟩)
    | eval | exec | apply => cases takes

lemma outcome?_eq_none (h : Like P.setting w A m m') : m.outcome? = none ∧ m'.outcome? = none := by
  obtain ⟨w', B, -, -, akin, -⟩ := h
  have pending := akin.stack.ne_nil fun foot => by
    obtain ⟨-, -, -, rest, rest', hs, hs', -⟩ := foot
    simp [hs, hs']
  exact ⟨outcome?_of_ne_nil pending.1, outcome?_of_ne_nil pending.2⟩

/-! ### Whole passages -/

lemma begins (h : Akin P.closing w A m m') (le : P.base.Le w) (hc : m.current = P.i)
    (hcs : m.collectors = [P.i]) (hs : m.stack = [.run P.caller]) (hs' : m'.stack = [.run P.caller]) :
    let n := m.runStatements P.unit P.unit.statements P.frame
    let n' := m'.runStatements P.joint (P.own ++ P.after) P.frame
    Like P.setting w A n n' ∨ P.Completes rules n n' := by
  have akin : Akin P.setting w A { m with stack := [.block P.unit [] P.frame, .run P.caller] }
      { m' with stack := [.block P.joint P.after P.frame, .run P.caller] } :=
    { h with tied := h.tied, stack := .foot ⟨le, hc, hcs, [], [], rfl, rfl, .nil⟩ }
  have first : { m with stack := [.run P.caller] } = m := by rw [← hs]
  have second : { m' with stack := [.run P.caller] } = m' := by rw [← hs']
  have begun : _ ∨ P.Completes rules _ _ :=
    runStatements_passage akin le hc hcs (P.like.imp fun _ _ => .mono le) .nothing
  dsimp only at begun ⊢
  rwa [first, second, resume_block_nothing, resume_block_nothing] at begun

/-- **Any number of steps in a passage.** -/
theorem steps (hh : rules.host.Uniform False) (ht : rules.host.Tame)
    (fits : m.Fits ⟨⟨False, True⟩, none⟩ x) (h : Like P.setting w A m m' ∨ P.Completes rules m m')
    (fuel : Nat) :
    Like P.setting w A (m.steps rules fuel) (m'.steps rules fuel) ∨
      ∃ k ≤ fuel, P.Completes rules (m.steps rules k) (m'.steps rules k) ∨
        P.Fails (m.steps rules k) (m'.steps rules k) := by
  -- The likeness is widened with each step, so it is generalized as well.
  induction fuel generalizing m m' w A with
  | zero => exact h.imp_right fun h => ⟨0, le_rfl, .inl h⟩
  | succ fuel ih =>
    rcases h with h | h
    · obtain ⟨waiting, waiting'⟩ := outcome?_eq_none h
      obtain ⟨w', B, hw, hA, akin, control⟩ := h
      have later : Like P.setting w' B (m.step rules) (m'.step rules) ∨
          P.Completes rules (m.step rules) (m'.step rules) ∨ P.Fails (m.step rules) (m'.step rules) :=
        step hh fits akin control
      rcases later with next | left
      · rcases ih (fits_step ht fits) (.inl next) with going | ⟨k, hk, left⟩
        · rw [steps_succ waiting, steps_succ waiting']
          exact .inl (going.widen hw hA)
        · refine .inr ⟨k + 1, Nat.succ_le_succ hk, ?_⟩
          rwa [steps_succ waiting, steps_succ waiting']
      · refine .inr ⟨1, Nat.succ_le_succ (Nat.zero_le _), ?_⟩
        rwa [steps_succ waiting, steps_succ waiting']
    · exact .inr ⟨0, Nat.zero_le _, .inl h⟩

lemma Completes.closes (h : P.Completes rules n n') (last : P.after = []) : P.Closes n n' := by
  obtain ⟨le, akin, stack, stack', -, -, hv, control, rfl⟩ := h
  rw [last]
  -- With no statements left, the joint block gives the value it has got.
  refine .mk le { akin with } stack stack' ?_ ?_
  · rw [control]
    exact .give hv
  · rw [control]
    trivial

variable (P) in
/-- Like results, and like machines when their stacks are put aside. -/
def Settles (r r' : Except RunError Value × Machine) : Prop :=
  ∃ w A, P.base.Le w ∧ LikeResult w False A r.1 r'.1 ∧
    Akin P.setting.resting w A r.2.atRest r'.2.atRest

lemma settles_of_like (h : Like P.setting w A m m') (le : P.base.Le w) :
    P.Settles (m.finish rules 0) (m'.finish rules 0) := by
  obtain ⟨waiting, waiting'⟩ := outcome?_eq_none h
  obtain ⟨w', B, hw, -, akin, -⟩ := h
  rw [finish_zero waiting, finish_zero waiting']
  exact ⟨w', B, le.trans hw, .unfinished, akin.atRest⟩

lemma Closes.settles (h : P.Closes n n') (fuel : Nat) :
    P.Settles (n.finish rules fuel) (n'.finish rules fuel) := by
  obtain ⟨le, akin, stack, stack', control, takes⟩ := h
  have waiting : n.outcome? = none := outcome?_of_ne_nil (by simp [stack])
  have waiting' : n'.outcome? = none := outcome?_of_ne_nil (by simp [stack'])
  cases fuel with
  | zero =>
    rw [finish_zero waiting, finish_zero waiting']
    exact ⟨_, _, le, .unfinished, akin.atRest⟩
  | succ fuel =>
    have ended := ended_step rules rules akin control takes stack stack'
    obtain ⟨result, e, e'⟩ := ended.finish rules rules fuel fuel
    rw [finish_succ waiting, finish_succ waiting']
    refine ⟨_, _, le, result, ?_⟩
    rw [e, e']
    exact ended.akin.atRest

lemma Fails.ne_ok (h : P.Fails n n') (fuel : Nat) (v) : (n.finish rules fuel).1 ≠ .ok v := by
  obtain ⟨⟨-, -, stack, -, -, -⟩, e, control⟩ := h
  have waiting : n.outcome? = none := outcome?_of_ne_nil (by simp [stack])
  cases fuel with
  | zero =>
    rw [finish_zero waiting]
    intro h
    cases h
  | succ fuel =>
    have raised : (n.step rules).outcome? = some (.error e) := by
      simp [Machine.step, control, stack, raiseThrough, leaveRun, outcome?]
    rw [finish_succ waiting, finish_of_outcome raised]
    intro h
    cases h

/-- **Running a passage to its end**: the machines come to like results without a value, unless they
complete the passage. -/
theorem finish_or_completes (hh : rules.host.Uniform False)
    (ht : rules.host.Tame) (fits : m.Fits ⟨⟨False, True⟩, none⟩ x) (le : P.base.Le w)
    (h : Like P.setting w A m m' ∨ P.Completes rules m m') (fuel : Nat) :
    (P.Settles (m.finish rules fuel) (m'.finish rules fuel) ∧
        ∀ v, (m.finish rules fuel).1 ≠ .ok v) ∨
      ∃ k ≤ fuel, P.Completes rules (m.steps rules k) (m'.steps rules k) := by
  rcases steps hh ht fits h fuel with going | ⟨k, hk, completes | fails⟩
  · have waiting := (outcome?_eq_none going).1
    refine .inl ⟨?_, fun v => ?_⟩
    · rw [← Nat.add_zero fuel, finish_add, finish_add]
      exact settles_of_like going le
    · rw [← Nat.add_zero fuel, finish_add, finish_zero waiting]
      intro h
      cases h
  · exact .inr ⟨k, hk, completes⟩
  · obtain ⟨t, rfl⟩ := Nat.exists_eq_add_of_le hk
    rw [finish_add, finish_add]
    exact .inl ⟨fails.1.settles t, fails.ne_ok t⟩

/-- **Running the last passage to its end.** -/
theorem settles_finish (hh : rules.host.Uniform False)
    (ht : rules.host.Tame) (fits : m.Fits ⟨⟨False, True⟩, none⟩ x) (le : P.base.Le w)
    (h : Like P.setting w A m m' ∨ P.Completes rules m m') (last : P.after = []) (fuel : Nat) :
    P.Settles (m.finish rules fuel) (m'.finish rules fuel) := by
  rcases finish_or_completes hh ht fits le h fuel with ⟨settles, -⟩ | ⟨k, hk, completes⟩
  · exact settles
  · obtain ⟨t, rfl⟩ := Nat.exists_eq_add_of_le hk
    rw [finish_add, finish_add]
    exact (completes.closes last).settles t

end Passage

end DynScript

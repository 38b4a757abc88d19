import DynScript.Proofs.Faults
import DynScript.Proofs.Simulation
import Mathlib.Logic.Function.Iterate

/-!
# The ends of like runs

The last pending part of a run waits for its value, converts it and leaves the machine at rest.  Like
runs that have come to this part end alike: with values in like boxes, or with the same error.

Main declarations: `Machine.ended_step`, `Machine.like_finish`.
-/

namespace DynScript

/-- The setting of machines with nothing pending below. -/
def Setting.resting (S : Setting) : Setting :=
  { S with
    foot := fun _ _ _ s s' => s = [] ∧ s' = []
    foot_mono := fun _ h => h }

/-- Like results of runs: values in like boxes, like errors, or none yet. -/
inductive LikeResult (w : Likeness) (l : Prop) (A : Container → Prop) :
    Except RunError Value → Except RunError Value → Prop where
  | value {v v' : Value} (h : v.Boxed l A v') : LikeResult w l A (.ok v) (.ok v')
  | error {e e' : RuntimeError} (h : e.Like w e') :
    LikeResult w l A (.error (.runtime e)) (.error (.runtime e'))
  | unfinished : LikeResult w l A (.error .unfinished) (.error .unfinished)

lemma StackLike.ne_nil {w} {A : Container → Prop}
    {foot : Likeness → Ref → List Ref → List Pending → List Pending → Prop} {l : Prop} {c cs s s'}
    (h : StackLike w l A foot c cs s s') (hf : foot w c cs s s' → s ≠ [] ∧ s' ≠ []) :
    s ≠ [] ∧ s' ≠ [] := by
  cases h with
  | foot h => exact hf h
  | _ => exact ⟨List.cons_ne_nil _ _, List.cons_ne_nil _ _⟩

lemma Host.uniform_none (l : Prop) : Host.none.Uniform l :=
  fun _ A _ _ h _ _ _ _ _ _ => ⟨A, le_rfl, .error ⟨rfl, rfl, .none⟩, h⟩

/-- The place of an error that has passed by all that is pending, `place` being its place before. -/
def locate (place : Option Location) : List Pending → Option Location
  | [] => place
  | .site q :: stack => locate (place.or q) stack
  | _ :: stack => locate place stack

@[simp] lemma locate_some (l S) : locate (some l) S = some l := by
  induction S with
  | nil => rfl
  | cons p S ih => cases p <;> exact ih

namespace Machine

variable {S : Setting} {w : Likeness} {A : Container → Prop} {m m' : Machine}

lemma Akin.resting (h : Akin S w A m m') :
    Akin S.resting w A { m with stack := [] } { m' with stack := [] } :=
  { h with tied := h.tied, stack := .foot ⟨rfl, rfl⟩ }

lemma Akin.atRest (h : Akin S w A m m') : Akin S.resting w A m.atRest m'.atRest :=
  { h.resting with collectors := rfl, stack := .foot ⟨rfl, rfl⟩ }

/-- Like machines at rest, with like outcomes. -/
structure Ended (S : Setting) (w : Likeness) (A : Container → Prop) (m m' : Machine) : Prop where
  akin : Akin S.resting w A m m'
  stack : m.stack = []
  stack' : m'.stack = []
  control : (∃ v v', m.control = .give v ∧ m'.control = .give v' ∧ v.Boxed S.loose A v') ∨
    ∃ e e', m.control = .raise e ∧ m'.control = .raise e' ∧ e.Like w e'

/-- **The last steps of like runs.** -/
theorem ended_step (rules rules') (h : Akin S w A m m') (hc : m.control.Like w S.loose A m'.control)
    (ht : TakesUp m.control) {caller} (hs : m.stack = [.run caller])
    (hs' : m'.stack = [.run caller]) : Ended S w A (m.step rules) (m'.step rules') := by
  have left : Akin S.resting w A (leaveRun { m with stack := [] } caller)
      (leaveRun { m' with stack := [] } caller) := h.resting.leaveRun caller (.foot ⟨rfl, rfl⟩)
  unfold step
  rw [hs, hs']
  generalize m.control = c at hc ht
  generalize m'.control = c' at hc
  cases hc with
  | give hv =>
    obtain ⟨u, u', e, e', hu, -⟩ := HeapM.convert_of_held hv
    simp only [resume, onHeap_eq]
    rw [e, e']
    exact ⟨{ left with }, rfl, rfl, .inl ⟨u, u', rfl, rfl, hu⟩⟩
  | @jump t t' v v' htt hv =>
    refine ⟨{ left with }, rfl, rfl, .inr ⟨_, _, rfl, rfl, ?_, rfl, .none⟩⟩
    rw [htt.name]
  | raise he => exact ⟨{ left with }, rfl, rfl, .inr ⟨_, _, rfl, rfl, he⟩⟩
  | eval | exec | apply => cases ht

lemma step_of_raise (rules) {e} (hc : m.control = .raise e) :
    ∃ l, (m.step rules).control = .raise { e with location := l } ∧
      (m.step rules).stack = m.stack.tail ∧ (m.step rules).heap = m.heap ∧
      (m.step rules).frames = m.frames ∧ locate l m.stack.tail = locate e.location m.stack := by
  unfold step
  rw [hc]
  cases hs : m.stack with
  | nil => exact ⟨e.location, hc, hs, rfl, rfl, rfl⟩
  | cons p stack =>
    cases p with
    | site place =>
      refine ⟨e.location.or place, ?_, rfl, rfl, rfl, rfl⟩
      exact congrArg Control.raise (e.withLocation_eq place)
    | _ => exact ⟨e.location, rfl, rfl, rfl, rfl, rfl⟩

lemma outcome?_of_ne_nil (hs : m.stack ≠ []) : m.outcome? = none := by
  unfold outcome?
  cases hm : m.stack with
  | nil => exact absurd hm hs
  | cons p s => rfl

lemma stack_of_outcome? {r} (h : m.outcome? = some r) : m.stack = [] := by
  unfold outcome? at h
  split at h <;> first | assumption | cases h

lemma takesUp_of_outcome? {r} (h : m.outcome? = some r) : TakesUp m.control := by
  unfold outcome? at h
  split at h <;> simp_all [TakesUp]

lemma steps_eq_iterate (rules) (fuel : Nat) (m : Machine) :
    m.steps rules fuel = (step rules)^[fuel] m := by
  induction fuel generalizing m with
  | zero => rfl
  | succ fuel ih =>
    unfold steps
    split
    · rename_i rest
      obtain ⟨r, hr⟩ := Option.isSome_iff_exists.1 rest
      have still : m.step rules = m := step_of_nil (stack_of_outcome? hr) (takesUp_of_outcome? hr)
      exact (Function.iterate_fixed still _).symm
    · exact ih _

variable {rules : Rules}

lemma steps_succ {fuel : Nat} (h : m.outcome? = none) :
    m.steps rules (fuel + 1) = (m.step rules).steps rules fuel := by
  simp only [steps, h, Option.isSome_none, Bool.false_eq_true, ↓reduceIte]

lemma finish_succ {fuel : Nat} (h : m.outcome? = none) :
    m.finish rules (fuel + 1) = (m.step rules).finish rules fuel := by
  simp only [finish, steps, h, Option.isSome_none, Bool.false_eq_true, ↓reduceIte]

lemma finish_zero (h : m.outcome? = none) : m.finish rules 0 = (.error .unfinished, m) := by
  simp only [finish, steps, h]

lemma steps_add (rules) (k fuel : Nat) (m : Machine) :
    m.steps rules (k + fuel) = (m.steps rules k).steps rules fuel := by
  induction k generalizing m with
  | zero => rw [Nat.zero_add]; rfl
  | succ k ih =>
    rw [Nat.succ_add]
    simp only [steps]
    split
    · rename_i ended
      cases fuel with
      | zero => rfl
      | succ fuel => simp only [steps, ended, if_true]
    · exact ih _

lemma finish_add (rules) (k fuel : Nat) (m : Machine) :
    m.finish rules (k + fuel) = (m.steps rules k).finish rules fuel := by
  simp only [finish, steps_add]

lemma finish_of_outcome {o} (h : m.outcome? = some o) (fuel : Nat) :
    m.finish rules fuel = (o.mapError .runtime, m) := by
  have rest : m.steps rules fuel = m := by
    cases fuel with
    | zero => rfl
    | succ fuel => simp [steps, h]
  simp only [finish, rest, h]
  cases o <;> rfl

/-- **Like machines at rest give like results.** -/
theorem Ended.finish (h : Ended S w A m m') (rules rules') (fuel fuel' : Nat) :
    LikeResult w S.loose A (m.finish rules fuel).1 (m'.finish rules' fuel').1 ∧
      (m.finish rules fuel).2 = m ∧ (m'.finish rules' fuel').2 = m' := by
  rcases h.control with ⟨v, v', hm, hm', hv⟩ | ⟨e, e', hm, hm', he⟩
  · have left : m.outcome? = some (.ok v) := by rw [outcome?, h.stack, hm]
    have right : m'.outcome? = some (.ok v') := by rw [outcome?, h.stack', hm']
    rw [finish_of_outcome left, finish_of_outcome right]
    exact ⟨.value hv, rfl, rfl⟩
  · have left : m.outcome? = some (.error e) := by rw [outcome?, h.stack, hm]
    have right : m'.outcome? = some (.error e') := by rw [outcome?, h.stack', hm']
    rw [finish_of_outcome left, finish_of_outcome right]
    exact ⟨.error he, rfl, rfl⟩

/-- **Like runs give like results,** when nothing but their last parts is at the feet of the
stacks. -/
theorem like_finish {host : Host} {b b' : Bool} (hh : host.Uniform S.loose)
    (hb : S.loose ∨ b = b')
    (hf : ∀ w c cs s s', S.foot w c cs s s' → ∃ caller, s = [.run caller] ∧ s' = [.run caller])
    (h : Like S w A m m') (fuel : Nat) :
    ∃ w' B, w.Le w' ∧ A ≤ B ∧
      LikeResult w' S.loose B (m.finish ⟨host, b⟩ fuel).1 (m'.finish ⟨host, b'⟩ fuel).1 ∧
      Akin S.resting w' B (m.finish ⟨host, b⟩ fuel).2.atRest
        (m'.finish ⟨host, b'⟩ fuel).2.atRest := by
  have waiting {w : Likeness} {A : Container → Prop} {m m' : Machine} (h : Akin S w A m m') :
      m.outcome? = none ∧ m'.outcome? = none := by
    have pending := h.stack.ne_nil fun foot => by
      obtain ⟨caller, hs, hs'⟩ := hf w _ _ m.stack m'.stack foot
      simp [hs, hs']
    exact ⟨outcome?_of_ne_nil pending.1, outcome?_of_ne_nil pending.2⟩
  induction fuel generalizing m m' w A with
  | zero =>
    obtain ⟨w', B, hw, hA, akin, control⟩ := h
    rw [finish_zero (waiting akin).1, finish_zero (waiting akin).2]
    exact ⟨w', B, hw, hA, .unfinished, akin.atRest⟩
  | succ fuel ih =>
    obtain ⟨w', B, hw, hA, akin, control⟩ := h
    rw [finish_succ (waiting akin).1, finish_succ (waiting akin).2]
    rcases like_step (hh.fair False) hb akin control False.elim with next | ⟨takes, foot⟩
    · obtain ⟨w'', C, hw', hB, rest⟩ := ih next
      exact ⟨w'', C, hw.trans hw', hA.trans hB, rest⟩
    · obtain ⟨caller, hs, hs'⟩ := hf w' _ _ m.stack m'.stack foot
      have ended := ended_step ⟨host, b⟩ ⟨host, b'⟩ akin control takes hs hs'
      obtain ⟨result, e, e'⟩ := ended.finish ⟨host, b⟩ ⟨host, b'⟩ fuel fuel
      rw [e, e']
      exact ⟨w', B, hw, hA, result, ended.akin.atRest⟩

lemma akin_initial {s s'} (ht : S.tied w s s') (hs : ∀ r, S.spare r = []) {registry : Registry}
    (hn : registry.Allowed w) (hb : ∀ v, w.bound v → v.Hosted S.loose (fun _ => False) v)
    {world : World} (hi : ∀ v, world.hooks.waitInput = some v → v.Hosted S.loose (fun _ => False) v)
    (limit : Int) (relinks : Bool) :
    Akin S.resting w (fun _ => False) (initial registry s world limit relinks)
      (initial registry s' world limit relinks) where
  tied := ht
  heap :=
    { arrays_size := rfl
      records_size := rfl
      functions_size := rfl
      has := nofun
      arrays := fun _ => .nil
      items := fun _ => False.elim
      fields := fun _ => .nil
      entries := fun _ => False.elim
      functions := fun _ => .native (List.forall_mem_nil _) }
  frames_size := rfl
  frames r := by
    have spare : S.resting.spare r = [] := hs r
    have blank : frameAt #[{}] r = {} := by
      cases r <;> rfl
    change (frameAt #[{}] r).Like w S.loose _ _ (frameAt #[{}] r)
    rw [spare, blank]
    exact .of_cells none .nil
  interpreters := rfl
  current := rfl
  collectors := rfl
  registry := rfl
  world := rfl
  natives := hn
  bound := hb
  input := hi
  stack := .foot ⟨rfl, rfl⟩

end Machine

end DynScript

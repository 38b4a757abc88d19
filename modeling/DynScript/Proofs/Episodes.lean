import DynScript.Proofs.Evaluation

/-!
# Episodes of a run

A step changes a stack at its top only.

Main declarations: `Machine.suffix_step`.
-/

namespace DynScript

open List

/-- Parts by which jumps and errors pass.  Other parts are where a jump may land, or where a call or run
ends. -/
def Pending.isPassed : Pending → Bool
  | .block .. | .loopBody .. | .call .. | .run _ => false
  | _ => true

namespace Machine

variable {rules : Rules} {m n x y : Machine} {S T : List Pending} {p : Pending}

/-! ### Steps -/

lemma Works.suffix {A : Heap → Heap → Prop} (h : Works A m n) : m.stack <:+ n.stack := by
  induction h with
  | trans _ _ ih ih' => exact ih.trans ih'
  | pend => exact suffix_cons _ _
  | warn m w =>
    obtain ⟨interpreters, world, told⟩ := warn_eq m w
    have same : (m.warn w).stack = m.stack := by rw [told]
    exact same ▸ suffix_rfl
  | _ => exact suffix_rfl

lemma suffix_evalFields (hs : S <:+ m.stack) (r rest frame place) :
    S <:+ (m.evalFields r rest frame place).stack := by
  unfold evalFields
  split
  · exact hs
  · exact hs.trans (suffix_cons _ _)

lemma suffix_runStatements (hs : S <:+ m.stack) (b rest frame) :
    S <:+ (m.runStatements b rest frame).stack :=
  hs.trans (Works.runStatements (A := fun _ _ => True) m b rest frame).suffix

lemma suffix_startRun (m : Machine) (i p) :
    .run m.current :: m.stack <:+ (m.startRun i p).stack := by
  refine suffix_runStatements ?_ ..
  exact suffix_rfl

lemma suffix_enter (m : Machine) (c self arguments place) :
    m.stack <:+ (m.enter c self arguments place).stack := by
  unfold enter
  dsimp only
  split
  · exact suffix_rfl
  · exact suffix_cons _ _

lemma Stride.suffix {A : Heap → Heap → Prop} (h : Stride A m n) :
    m.stack.tail <:+ n.stack ∧ (TakesUp m.control ∨ m.stack <:+ n.stack) := by
  have whole {T : List Pending} (h : m.stack <:+ T) :
      m.stack.tail <:+ T ∧ (TakesUp m.control ∨ m.stack <:+ T) :=
    ⟨(tail_suffix _).trans h, .inr h⟩
  have top {p : Pending} {stack T : List Pending} (hs : m.stack = p :: stack) (h : stack <:+ T)
      (takes : TakesUp m.control) : m.stack.tail <:+ T ∧ (TakesUp m.control ∨ m.stack <:+ T) :=
    ⟨by rwa [hs], .inl takes⟩
  cases h with
  | works h => exact whole h.suffix
  | resumes hs _ h takes => exact top hs h.suffix takes
  | enters h _ _ self arguments place => exact whole (h.suffix.trans (suffix_enter ..))
  | leavesCall hs h takes => exact top hs h.suffix takes
  | leavesRun hs _ _ takes => exact top hs suffix_rfl takes
  | begins h p place =>
    refine whole (h.suffix.trans ((suffix_cons (.site place) _).trans ?_))
    refine .trans ?_ (suffix_startRun ..)
    exact suffix_cons _ _
  | builds =>
    refine whole (suffix_evalFields ?_ ..)
    exact suffix_rfl
  | storesItem h =>
    obtain ⟨p, hs, -⟩ := h.stack_eq
    exact top hs suffix_rfl h.takesUp
  | storesField h =>
    obtain ⟨p, hs, -⟩ := h.stack_eq
    exact top hs suffix_rfl h.takesUp
  | fills hc hs =>
    refine top hs (suffix_evalFields ?_ ..) (hc ▸ trivial)
    exact suffix_rfl

/-- **A step leaves alone what is pending below the innermost part,** and this part as well unless it
is taken up. -/
theorem suffix_step (rules) (m : Machine) : m.stack.tail <:+ (m.step rules).stack ∧
    (TakesUp m.control ∨ m.stack <:+ (m.step rules).stack) :=
  (stride_step (A := fun _ _ => True) (fun _ _ _ => trivial) (fun _ _ _ _ => trivial) m).suffix

lemma suffix_step_of_suffix (hs : S <:+ m.stack) (hm : ¬ (m.stack = S ∧ TakesUp m.control)) :
    S <:+ (m.step rules).stack := by
  obtain ⟨below, all⟩ := suffix_step rules m
  by_cases takes : TakesUp m.control
  · obtain ⟨T, hT⟩ := hs
    cases T with
    | nil => exact absurd ⟨hT.symm, takes⟩ hm
    | cons q T =>
      rw [← hT] at below
      exact (suffix_append T S).trans below
  · exact hs.trans (all.resolve_left takes)

lemma step_of_give {v} (hc : m.control = .give v) (hs : m.stack = p :: S) :
    m.step rules = ({ m with stack := S } : Machine).resume rules p v := by
  simp only [step, hc, hs]

lemma step_of_isPassed (rules) (hp : p.isPassed) (hs : m.stack = p :: S) (hc : TakesUp m.control)
    (hn : ∀ v, m.control ≠ .give v) :
    (m.step rules).stack = S ∧ TakesUp (m.step rules).control ∧
      ∀ v, (m.step rules).control ≠ .give v := by
  unfold step
  cases control : m.control with
  | eval e frame | exec s frame | apply callee arguments place => rw [control] at hc; cases hc
  | give v => exact absurd control (hn v)
  | jump target v =>
    rw [hs]
    cases p <;> first
      | exact ⟨rfl, trivial, fun v hv => by cases hv⟩
      | cases hp
  | raise e =>
    rw [hs]
    cases p <;> exact ⟨rfl, trivial, fun v hv => by cases hv⟩

/-! ### Runs -/

namespace Within

lemma suffix (hs : S <:+ m.stack) (h : Within rules S m n) : S <:+ n.stack := by
  induction h with
  | refl => exact hs
  | step _ hn ih => exact suffix_step_of_suffix ih hn

lemma trans (h : Within rules S m n) (k : Within rules S n x) : Within rules S m x := by
  induction k with
  | refl => exact h
  | step _ hn ih => exact .step ih hn

lemma cases_head (h : Within rules S m n) : n = m ∨ Within rules S (m.step rules) n := by
  induction h with
  | refl => exact .inl rfl
  | step _ hn ih =>
    rcases ih with rfl | later
    · exact .inr .refl
    · exact .inr (.step later hn)

lemma later (h : Within rules S m n) (hm : ¬ TakesUp m.control) (hn : TakesUp n.control) :
    Within rules S (m.step rules) n := by
  rcases h.cases_head with rfl | later
  · exact absurd hn hm
  · exact later

lemma mono (hs : T <:+ m.stack) (hT : S <:+ T) (h : Within rules T m n) : Within rules S m n := by
  induction h with
  | refl => exact .refl
  | @step n run hn ih =>
    refine .step ih ?_
    rintro ⟨stack, takes⟩
    -- What is pending is no less than `T`, so that it would be `T`.
    have more : T <:+ S := stack ▸ run.suffix hs
    exact hn ⟨stack.trans (hT.eq_of_length_le more.length_le), takes⟩

lemma eq_of_end (hs : m.stack = S) (hc : TakesUp m.control) (h : Within rules S m n) : n = m := by
  induction h with
  | refl => rfl
  | step _ hn ih =>
    subst ih
    exact absurd ⟨hs, hc⟩ hn

/-- **A run passes by each pending part.**  Before it comes down to what is pending below a part, the
part is taken up. -/
theorem through (h : Within rules S m n) (hs : p :: S <:+ m.stack) (hn : n.stack = S) :
    ∃ y, Within rules (p :: S) m y ∧ y.stack = p :: S ∧ TakesUp y.control ∧
      Within rules S (y.step rules) n := by
  have along : ∀ x, Within rules S m x → Within rules (p :: S) m x ∨
      ∃ y, Within rules (p :: S) m y ∧ y.stack = p :: S ∧ TakesUp y.control ∧
        Within rules S (y.step rules) x := by
    intro x run
    induction run with
    | refl => exact .inl .refl
    | @step x _ hx ih =>
      rcases ih with inside | ⟨y, run, stack, takes, later⟩
      · by_cases up : x.stack = p :: S ∧ TakesUp x.control
        · exact .inr ⟨x, inside, up.1, up.2, .refl⟩
        · exact .inl (.step inside up)
      · exact .inr ⟨y, run, stack, takes, .step later hx⟩
  refine (along n h).resolve_left fun inside => ?_
  have long := (inside.suffix hs).length_le
  rw [hn] at long
  exact Nat.not_succ_le_self _ long

lemma iterate {k : Nat} (h : ∀ j < k, S.length < ((Machine.step rules)^[j] m).stack.length) :
    Within rules S m ((Machine.step rules)^[k] m) := by
  induction k with
  | zero => exact .refl
  | succ k ih =>
    rw [Function.iterate_succ_apply']
    refine .step (ih fun j hj => h j (Nat.lt_succ_of_lt hj)) ?_
    rintro ⟨stack, -⟩
    have longer := h k (Nat.lt_succ_self k)
    rw [stack] at longer
    exact lt_irrefl _ longer

lemma given {v} (h : Within rules S m n) (hp : p.isPassed) (hs : p :: S <:+ m.stack)
    (hn : n.stack = S) (hv : n.control = .give v) :
    ∃ y u, Within rules (p :: S) m y ∧ y.stack = p :: S ∧ y.control = .give u ∧
      Within rules S (y.step rules) n := by
  obtain ⟨y, run, stack, takes, later⟩ := h.through hs hn
  by_cases gives : ∃ u, y.control = .give u
  · obtain ⟨u, hu⟩ := gives
    exact ⟨y, u, run, stack, hu, later⟩
  · obtain ⟨down, takes, none⟩ := step_of_isPassed rules hp stack takes (not_exists.1 gives)
    rw [later.eq_of_end down takes] at hv
    exact absurd hv (none v)

end Within

end Machine

end DynScript

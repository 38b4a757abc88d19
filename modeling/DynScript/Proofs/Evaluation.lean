import DynScript.Proofs.DynamicSoundness
import DynScript.Proofs.Isolation

/-!
# Texts evaluated as scripts

A script can evaluate a text as a script of its own, which is run by a new interpreter on the same
machine.

Main declarations: `Machine.Evaluating`.
-/

namespace DynScript

/-! ### Parts of a store -/

/-- A part of a store: an array, a record, a function or a frame of variables. -/
inductive Part where
  | array (r : Ref)
  | record (r : Ref)
  | function (r : Ref)
  | frame (r : Ref)
  deriving DecidableEq, Repr

/-- The part of a store that a value refers to, if it does. -/
def Value.part? : Value → Option Part
  | .boxed (.array r) _ | .raw (.array r) | .alien (.tuple r) => some (.array r)
  | .boxed (.record r) _ | .raw (.record r) => some (.record r)
  | .boxed (.callable r) _ | .raw (.callable r) | .alien (.function r _) => some (.function r)
  | _ => none

namespace Machine

/-- A part of the store of a machine that is there. -/
def Has (m : Machine) : Part → Prop
  | .array r => r < m.heap.arrays.size
  | .record r => r < m.heap.records.size
  | .function r => r < m.heap.functions.size
  | .frame r => r < m.frames.size

/-- One part of a store holds another: arrays their items, records their fields, functions their
frame or bound values, and frames their variables and the frame around them. -/
inductive Holds (m : Machine) : Part → Part → Prop where
  | item {r} {v : Value} {p} (hv : v ∈ m.heap.array r) (hp : v.part? = some p) :
    Holds m (.array r) p
  | field {r} {f} {p} (hf : f ∈ (m.heap.record r).fields)
    (hp : f.2.part? = some p) : Holds m (.record r) p
  | closure {r} {c : Closure} (hc : m.heap.function r = .closure c) :
    Holds m (.function r) (.frame c.frame)
  | bound {r} {f : NativeFunction} {symbol} {values} {v : Value}
    {p} (hf : m.heap.function r = .native f) (hb : f.body = .host symbol values)
    (hv : v ∈ values) (hp : v.part? = some p) : Holds m (.function r) p
  | cell {r} {c} {p} (hc : c ∈ (frameAt m.frames r).cells)
    (hp : c.2.part? = some p) : Holds m (.frame r) p
  | parent {r s} (hs : (frameAt m.frames r).parent = some s) : Holds m (.frame r) (.frame s)

/-- The parts of a store that can be reached from a part. -/
def Reaches (m : Machine) : Part → Part → Prop :=
  Relation.ReflTransGen m.Holds

/-- All that a machine had is as it was: arrays, records, functions and variables, and of
interpreters the global frame, the limit and the nested calls. -/
structure Preserves (m old : Machine) : Prop where
  arrays : ∀ r, old.Has (.array r) → m.heap.array r = old.heap.array r
  records : ∀ r, old.Has (.record r) → m.heap.record r = old.heap.record r
  functions : ∀ r, old.Has (.function r) → m.heap.function r = old.heap.function r
  frames : ∀ r, old.Has (.frame r) → frameAt m.frames r = frameAt old.frames r
  interpreters : ∀ r, r < old.interpreters.size →
    (m.interpreter r).globals = (old.interpreter r).globals ∧
    (m.interpreter r).limit = (old.interpreter r).limit ∧
    (m.interpreter r).depth = (old.interpreter r).depth

variable {rules : Rules} {m n old : Machine} {place : Option Location}

/-! ### Nothing is shared -/

lemma not_has_of_beyond {v : Value} (hv : v.Beyond old.border) {p} (hp : v.part? = some p) :
    ¬ old.Has p := by
  unfold Value.part? at hp
  split at hp <;> cases hp <;> exact not_lt.2 hv

namespace Sealed

variable (h : m.Sealed old)

include h

lemma preserves : m.Preserves old where
  arrays := h.heap.oldArrays
  records := h.heap.oldRecords
  functions := h.heap.oldFunctions
  frames := h.oldFrames
  interpreters r hr :=
    have post := h.posts r hr
    ⟨congrArg Post.globals post, congrArg Post.limit post, congrArg Post.depth post⟩

lemma holds {p q} (hp : ¬ old.Has p) (hq : m.Holds p q) : ¬ old.Has q := by
  cases hq with
  | item hv hq => exact not_has_of_beyond (h.heap.newArrays _ (not_lt.1 hp) _ hv) hq
  | field hf hq => exact not_has_of_beyond (h.heap.newRecords _ (not_lt.1 hp) _ hf) hq
  | closure hc =>
    have beyond := h.heap.newFunctions _ (not_lt.1 hp)
    rw [hc] at beyond
    exact not_lt.2 beyond.1
  | bound hf hb =>
    -- A function of the application is not standard.
    have beyond := h.heap.newFunctions _ (not_lt.1 hp)
    rw [hf] at beyond
    simp [Callable.Beyond, NativeFunction.isStandard, hb] at beyond
  | cell hc hq => exact not_has_of_beyond ((h.newFrames _ (not_lt.1 hp)).cells _ hc) hq
  | parent hs => exact not_lt.2 ((h.newFrames _ (not_lt.1 hp)).parent _ hs)

/-- **What is reached from a new part is new.** -/
theorem reaches {p q} (hp : ¬ old.Has p) (hq : m.Reaches p q) : ¬ old.Has q := by
  induction hq with
  | refl => exact hp
  | tail _ hq ih => exact h.holds ih hq

end Sealed

/-! ### The course of an evaluation -/

/-- A machine that has left the evaluated text, with a new value or an error. -/
structure Left (n m : Machine) : Prop where
  store : n.Sealed m
  current : n.current = m.current
  control : (∃ v, n.control = .give v ∧ v.Beyond m.border) ∨ ∃ e, n.control = .raise e

/-- How far the evaluation of a text called in the state `m` has come: it is called, at work beyond
the border, about to return, or has returned. -/
inductive Evaluating (m : Machine) (place : Option Location) : Machine → Prop where
  | called : Evaluating m place m
  | working {n : Machine} (h : n.Apart m (.run m.current :: .site place :: m.stack)) :
    Evaluating m place n
  | leaving {n : Machine} (h : n.Left m) (hs : n.stack = .site place :: m.stack) :
    Evaluating m place n
  | returned {n : Machine} (h : n.Left m) (hs : n.stack = m.stack) : Evaluating m place n

lemma Sealed.left_convert (h : n.Sealed m) (hc : n.current = m.current) {v : Value}
    (hv : v.Beyond m.border) (place) :
    (n.onHeap v.convert place fun n v => n.give v).Left m ∧
      (n.onHeap v.convert place fun n v => n.give v).stack = n.stack := by
  obtain ⟨left, result⟩ := seals_convert (.inl hv) n.heap h.heap
  rw [onHeap_eq]
  cases hr : v.convert n.heap with
  | ok u k =>
    rw [hr] at left
    exact ⟨⟨{ h.setHeap left with }, hc, .inl ⟨u, rfl, result u k hr⟩⟩, rfl⟩
  | error e k =>
    rw [hr] at left
    exact ⟨⟨{ h.setHeap left with }, hc, .inr ⟨_, rfl⟩⟩, rfl⟩

lemma Sealed.left_warn (h : n.Sealed m) (hc : n.current = m.current) (w) :
    ((n.warn w).give .null).Left m ∧ ((n.warn w).give .null).stack = n.stack := by
  obtain ⟨store, stack, current⟩ := h.warn w
  exact ⟨⟨{ store with }, current.trans hc, .inl ⟨.null, rfl, trivial⟩⟩, stack⟩

/-- **The end of the run**: a value is handed on, a jump has left the text and is an error. -/
theorem Apart.leave (h : n.Apart m (.run m.current :: .site place :: m.stack))
    (hs : n.stack = .run m.current :: .site place :: m.stack) (ht : TakesUp n.control) :
    (n.step rules).Left m ∧ (n.step rules).stack = .site place :: m.stack := by
  obtain ⟨working, control⟩ := h
  have run : (({ n with stack := .site place :: m.stack } : Machine).leaveRun m.current).Sealed m :=
    { working.store with }
  unfold Machine.step
  cases hc : n.control with
  | eval _ _ | exec _ _ | apply _ _ _ =>
    rw [hc] at ht
    cases ht
  | give v =>
    rw [hc] at control
    simp only [hs, resume, ← hc]
    exact run.left_convert rfl control none
  | jump target v =>
    simp only [hs, jumpThrough]
    exact ⟨⟨{ run with }, rfl, .inr ⟨_, rfl⟩⟩, rfl⟩
  | raise e =>
    simp only [hs, raiseThrough]
    exact ⟨⟨{ run with }, rfl, .inr ⟨e, rfl⟩⟩, rfl⟩

/-- **The return to the caller.** -/
theorem Left.returns (h : n.Left m) (hs : n.stack = .site place :: m.stack) :
    (n.step rules).Left m ∧ (n.step rules).stack = m.stack := by
  unfold Machine.step
  rcases h.control with ⟨v, hv, beyond⟩ | ⟨e, he⟩
  · simp only [hv, hs, resume]
    exact ⟨⟨{ h.store with }, h.current, .inl ⟨v, rfl, beyond⟩⟩, rfl⟩
  · simp only [he, hs, raiseThrough]
    exact ⟨⟨{ h.store with }, h.current, .inr ⟨_, rfl⟩⟩, rfl⟩

/-! ### The start of an evaluation -/

lemma step_evaluate (rules) {code : Value} {source} (hs : code.string? = some source)
    (hc : m.control = .apply (.native Builtin.evaluate.function) [code] place) :
    ∃ text : Value, text.string? = some source ∧ m.step rules = m.evaluateText text place := by
  have converts : ∃ text : Value, text.string? = some source ∧
      [code].mapM Value.convert m.heap = .ok [text] m.heap := by
    cases code with
    | boxed d mark => exact ⟨.boxed d mark, hs, rfl⟩
    | raw d =>
      cases d with
      | string s => exact ⟨.boxed (.string s), hs, rfl⟩
      | _ => cases hs
    | alien a => cases a <;> cases hs
  obtain ⟨text, ht, converted⟩ := converts
  refine ⟨text, ht, ?_⟩
  unfold Machine.step
  rw [hc]
  have enough : ¬ (([code].length : Int) < (Callable.native Builtin.evaluate.function).arity) :=
    Int.lt_irrefl 1
  simp only [apply, call]
  rw [if_neg enough, onHeap_eq, converted]
  rfl

lemma sealed_compile (m : Machine) (source) : (m.compile source evalOptions []).2.Sealed m :=
  { Sealed.refl m with }

lemma evaluateText_of_not_ok {code : Value} {source} (place) (hs : code.string? = some source)
    (hu : ∀ u, (DynScript.compile source evalOptions m.registry [] m.supply).result = .ok u →
      ¬ u.ok) :
    (m.evaluateText code place).Left m ∧ (m.evaluateText code place).stack = m.stack ∧
      (m.evaluateText code place).control = .give .null := by
  have store := sealed_compile m source
  obtain ⟨left, stack⟩ := store.left_warn rfl (.unparsable source)
  unfold evaluateText
  simp only [hs]
  split
  · exact ⟨left, stack, rfl⟩
  · rename_i u hr
    rw [if_neg (hu u hr)]
    exact ⟨left, stack, rfl⟩

lemma apart_evaluateText (ho : m.Secluded) {code : Value} {source} (hs : code.string? = some source)
    {u} (hu : (DynScript.compile source evalOptions m.registry [] m.supply).result = .ok u)
    (hk : u.ok) :
    (m.evaluateText code place).Apart m (.run m.current :: .site place :: m.stack) := by
  have store := sealed_compile m source
  have made := store.newInterpreter defaultLimit true
  have globals := store.globals_newInterpreter defaultLimit true
  have standard := standard_of_compile ho.natives hu
  unfold evaluateText
  simp only [hs, hu, hk, if_true]
  exact (made.pend (.site place)).startRun (le_refl m.interpreters.size) globals standard

/-! ### Isolation -/

lemma control_of_outcome? {v} (h : m.outcome? = some (.ok v)) :
    m.stack = [] ∧ m.control = .give v := by
  unfold outcome? at h
  split at h <;> cases h
  exact ⟨‹_›, ‹_›⟩

lemma Within.head {foot} (hm : ¬ (m.stack = foot ∧ TakesUp m.control))
    (h : Within rules foot (m.step rules) n) : Within rules foot m n := by
  induction h with
  | refl => exact .step .refl hm
  | step _ hn ih => exact .step ih hn

lemma Within.steps (fuel : Nat) : Within rules [] m (m.steps rules fuel) := by
  induction fuel generalizing m with
  | zero => exact .refl
  | succ fuel ih =>
    rw [Machine.steps]
    split
    · exact .refl
    · rename_i pending
      refine .head ?_ ih
      rintro ⟨stack, takes⟩
      apply pending
      unfold outcome?
      rw [stack]
      cases hc : m.control <;> simp_all [TakesUp]

variable {code : Value} {source : String}

lemma Evaluating.step (ho : m.Secluded) (hs : code.string? = some source)
    (hc : m.control = .apply (.native Builtin.evaluate.function) [code] place)
    (h : Evaluating m place n) (hn : ¬ (n.stack = m.stack ∧ TakesUp n.control)) :
    Evaluating m place (n.step rules) := by
  cases h with
  | called =>
    obtain ⟨text, ht, hm⟩ := step_evaluate rules hs hc
    rw [hm]
    by_cases compiles : ∃ u, (DynScript.compile source evalOptions m.registry [] m.supply).result =
        .ok u ∧ u.ok
    · obtain ⟨u, hu, hk⟩ := compiles
      exact .working (apart_evaluateText ho ht hu hk)
    · obtain ⟨left, stack, -⟩ := evaluateText_of_not_ok place ht
        fun u hu hk => compiles ⟨u, hu, hk⟩
      exact .returned left stack
  | working h =>
    by_cases ends : n.stack = .run m.current :: .site place :: m.stack ∧ TakesUp n.control
    · obtain ⟨left, stack⟩ := h.leave ends.1 ends.2
      exact .leaving left stack
    · exact .working (apart_step ho.screened h ends)
  | leaving h stack =>
    obtain ⟨left, stack⟩ := h.returns stack
    exact .returned left stack
  | returned h stack =>
    refine absurd ⟨stack, ?_⟩ hn
    rcases h.control with ⟨v, hv, -⟩ | ⟨e, he⟩
    · rw [hv]
      trivial
    · rw [he]
      trivial

lemma Within.evaluating (ho : m.Secluded) (hs : code.string? = some source)
    (hc : m.control = .apply (.native Builtin.evaluate.function) [code] place)
    (run : Within rules m.stack m n) : Evaluating m place n := by
  induction run with
  | refl => exact .called
  | step _ hn ih => exact ih.step ho hs hc hn

lemma Evaluating.left (h : Evaluating m place n) (hs : n.stack = m.stack)
    (ht : TakesUp n.control) (hc : ¬ TakesUp m.control) : n.Left m := by
  cases h with
  | called => exact absurd ht hc
  | working h =>
    obtain ⟨above, ha, -⟩ := h.working.stack
    have length := congrArg List.length (hs.symm.trans ha)
    simp only [List.length_append, List.length_cons] at length
    omega
  | leaving h stack =>
    have length := congrArg List.length (hs.symm.trans stack)
    simp only [List.length_cons] at length
    omega
  | returned h _ => exact h

lemma Evaluating.sealed (h : Evaluating m place n) : n.Sealed m := by
  cases h with
  | called => exact .refl m
  | working h => exact h.working.store
  | leaving h | returned h => exact h.store

/-- **Evaluating a text is isolated from its caller.**  On a machine with the standard library, in any
state in which a text is to be evaluated, everything that is there stays as it is at every step until
the call has returned.  The call returns to the caller with a value or a runtime error.  Nothing that
was there before can be reached from the value.  A text that does not compile is no error: the call
returns null at once. -/
theorem evaluation_isolated (ho : m.Secluded) (hs : code.string? = some source)
    (hc : m.control = .apply (.native Builtin.evaluate.function) [code] place)
    (run : Within rules m.stack m n) :
    n.Preserves m ∧
    (n.stack = m.stack → TakesUp n.control → n.current = m.current ∧
      ((∃ v, n.control = .give v ∧ ∀ p, v.part? = some p → ∀ q, n.Reaches p q → ¬ m.Has q) ∨
        ∃ e, n.control = .raise e)) ∧
    ((∀ u, (DynScript.compile source evalOptions m.registry [] m.supply).result = .ok u → ¬ u.ok) →
      (m.step rules).stack = m.stack ∧ (m.step rules).control = .give .null) := by
  have course := run.evaluating ho hs hc
  refine ⟨course.sealed.preserves, fun stack takes => ?_, fun rejected => ?_⟩
  · have left : n.Left m := course.left stack takes (by rw [hc]; exact id)
    refine ⟨left.current, left.control.imp_left ?_⟩
    rintro ⟨v, hv, beyond⟩
    exact ⟨v, hv, fun p hp q hq => left.store.reaches (not_has_of_beyond beyond hp) hq⟩
  · obtain ⟨text, ht, hm⟩ := step_evaluate rules hs hc
    rw [hm]
    exact (evaluateText_of_not_ok place ht rejected).2

/-- A script that waits for input and gives it in an array, next to which an array was there before. -/
theorem evaluation_isolated_array :
    let m : Machine := { initial .standard {} { hooks := { waitInput := some (.alien (.integer 7)) } }
        defaultLimit true with
      heap := { arrays := #[#[.null]] }
      control := .apply (.native Builtin.evaluate.function) [.boxed (.string "[[$WaitInput()]];")] none }
    let n := m.steps {} 20
    m.Has (.array 0) ∧ n.Preserves m ∧
      ∃ v, n.control = .give v ∧ v.part? = some (.array 2) ∧ ∀ q, n.Reaches (.array 2) q → ¬ m.Has q := by
  intro m n
  have computed : (n.outcome?.bind (·.toOption)).bind Value.part? = some (.array 2) := by
    decide +kernel
  have run : Within {} m.stack m n := Within.steps 20
  clear_value n
  obtain ⟨v, hv, part⟩ := Option.bind_eq_some_iff.1 computed
  obtain ⟨e | v, hr, ⟨⟩⟩ := Option.bind_eq_some_iff.1 hv
  obtain ⟨stack, control⟩ := control_of_outcome? hr
  have secluded : m.Secluded := by
    refine ⟨Registry.standard_standard, ?_⟩
    rintro v ⟨⟩
    exact .integer 7
  obtain ⟨preserves, returns, -⟩ := evaluation_isolated secluded rfl rfl run
  obtain ⟨-, ⟨u, hu, new⟩ | ⟨e, he⟩⟩ := returns stack (control ▸ trivial)
  · cases control.symm.trans hu
    exact ⟨Nat.one_pos, preserves, v, control, part, new _ part⟩
  · cases control.symm.trans he

end Machine

end DynScript

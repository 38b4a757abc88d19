import DynScript.Proofs.Skeleton
import Mathlib.Logic.Function.Iterate

/-!
# Nested calls

Each interpreter counts the calls of its own functions that are under way and refuses one that would go
beyond its limit.

Main declarations: `Machine.counts_step`.
-/

namespace DynScript

open List Skeleton

/-- A pending part is the end of a call of a function of the interpreter `i`. -/
def Pending.isCallOf (i : Ref) : Pending → Bool
  | .call _ owner _ _ => owner = i
  | _ => false

/-- A call of a function of the interpreter `i`. -/
def Mark.isCallOf (i : Ref) : Mark → Bool
  | .call owner _ => owner = i
  | .run _ => false

@[simp] lemma Mark.isCallOf_call (i owner caller) :
    (Mark.call owner caller).isCallOf i = decide (owner = i) := rfl

@[simp] lemma Mark.isCallOf_run (i caller) : (Mark.run caller).isCallOf i = false := rfl

/-- The calls of functions of the interpreter `i` that are under way. -/
def Machine.activations (m : Machine) (i : Ref) : Nat :=
  m.stack.countP (·.isCallOf i)

/-- The calls of functions of scripts that are under way. -/
def Machine.nestedCalls (m : Machine) : Nat :=
  m.stack.countP fun
    | .call .. => true
    | _ => false

namespace Skeleton

variable {s : Skeleton} {limit : Int} {i : Ref}

/-- The calls of functions of the interpreter `i`. -/
def calls (s : Skeleton) (i : Ref) : Nat :=
  s.marks.countP (·.isCallOf i)

/-- The interpreter `i` has the given limit, counts the calls of its functions and keeps to the
limit. -/
def Counts (limit : Int) (i : Ref) (s : Skeleton) : Prop :=
  ∃ p, s.posts[i]? = some p ∧ p.limit = limit ∧ p.depth = s.calls i ∧ (p.depth : Int) ≤ max 0 limit

lemma Counts.lt_size (h : s.Counts limit i) : i < s.posts.size := by
  obtain ⟨p, hp, -⟩ := h
  exact (Array.getElem?_eq_some_iff.1 hp).1

lemma Counts.enter (h : s.Counts limit i) {owner}
    (room : ∀ p, s.posts[owner]? = some p → (p.depth : Int) < p.limit) :
    (s.enter owner).Counts limit i := by
  obtain ⟨p, hp, rfl, depth, bound⟩ := h
  by_cases ho : owner = i
  · subst ho
    have room := room p hp
    refine ⟨{ p with depth := p.depth + 1 }, ?_, rfl, ?_, ?_⟩
    · simp [Skeleton.enter, Skeleton.count, Array.getElem?_modify, hp]
    · simp [Skeleton.enter, calls, depth]
    · dsimp only
      omega
  · refine ⟨p, ?_, rfl, ?_, bound⟩
    · simp [Skeleton.enter, Skeleton.count, Array.getElem?_modify, ho, hp]
    · simp [Skeleton.enter, calls, ho, depth]

lemma Counts.leave (h : s.Counts limit i) {mark marks} (top : s.marks = mark :: marks) :
    (s.leave mark).Counts limit i := by
  obtain ⟨p, hp, rfl, depth, bound⟩ := h
  rw [calls, top, countP_cons] at depth
  cases mark with
  | run caller => exact ⟨p, hp, rfl, by simpa [Skeleton.leave, calls, top] using depth,
      bound⟩
  | call owner caller =>
    by_cases ho : owner = i
    · subst ho
      simp only [Mark.isCallOf_call, decide_true, if_true] at depth
      refine ⟨{ p with depth := p.depth - 1 }, ?_, rfl, ?_, ?_⟩
      · simp [Skeleton.leave, Skeleton.count, Array.getElem?_modify, hp]
      · simp [Skeleton.leave, calls, top, depth]
      · dsimp only
        omega
    · refine ⟨p, ?_, rfl, ?_, bound⟩
      · simp [Skeleton.leave, Skeleton.count, Array.getElem?_modify, ho, hp]
      · simpa [Skeleton.leave, calls, top, ho] using depth

lemma Counts.begin (h : s.Counts limit i) (globals) : (s.begin globals).Counts limit i := by
  have lt := h.lt_size
  obtain ⟨p, hp, rfl, depth, bound⟩ := h
  refine ⟨p, ?_, rfl, ?_, bound⟩
  · simp only [begin, Array.getElem?_push, if_neg (Nat.ne_of_lt lt), hp]
  · simp [begin, calls, depth]

end Skeleton

namespace Machine

variable {rules : Rules} {m : Machine} {limit : Int} {i : Ref}

lemma activations_eq (m : Machine) (i) : m.activations i = m.skeleton.calls i := by
  simp only [activations, calls, skeleton, countP_filterMap]
  congr 1
  funext p
  cases p <;> rfl

/-- The interpreter `i` has the given limit, and the calls of its functions are counted and within the
limit. -/
structure Bounds (limit : Int) (i : Ref) (m : Machine) : Prop where
  allowed : (m.interpreter i).limit = limit
  depth : (m.interpreter i).depth = m.activations i
  bound : (m.activations i : Int) ≤ max 0 limit

lemma Bounds.of_counts (h : m.skeleton.Counts limit i) : m.Bounds limit i := by
  obtain ⟨p, hp, rfl, depth, bound⟩ := h
  have post := post_interpreter m i
  rw [Array.getD_eq_getD_getElem?, hp, Option.getD_some] at post
  subst post
  exact ⟨rfl, by rw [activations_eq]; exact depth, by rw [activations_eq, ← depth]; exact bound⟩

/-- **A step keeps the count.** -/
theorem counts_step (h : m.skeleton.Counts limit i) :
    (m.step rules).skeleton.Counts limit i := by
  have turn : Turn False m (m.step rules) := turn_step False.elim m
  cases turn with
  | calm calm => rwa [calm.skeleton]
  | @entered _ calm c _ room skeleton _ =>
    rw [skeleton, calm.skeleton]
    refine h.enter fun p hp => ?_
    have post := post_interpreter m c.owner
    rw [Array.getD_eq_getD_getElem?, hp, Option.getD_some] at post
    rw [← post]
    exact room
  | left top skeleton _ calm =>
    rw [calm.skeleton, skeleton]
    exact h.leave top
  | begun calm globals skeleton _ =>
    rw [skeleton, calm.skeleton]
    exact h.begin globals

/-! ### Interpreters made on the way -/

end Machine

/-- The interpreters of a call or run are among the first `n`. -/
def Mark.Within (n : Nat) : Mark → Prop
  | .call owner caller => owner < n ∧ caller < n
  | .run caller => caller < n

lemma Mark.Within.mono {n k : Nat} (h : n ≤ k) {mark : Mark} (hm : mark.Within n) :
    mark.Within k := by
  cases mark with
  | call owner caller => exact hm.imp (Nat.lt_of_lt_of_le · h) (Nat.lt_of_lt_of_le · h)
  | run caller => exact Nat.lt_of_lt_of_le hm h

/-- The interpreter at work, those of the calls and runs under way and those of all functions are
there. -/
structure Skeleton.Staffed (s : Skeleton) (h : Heap) : Prop where
  current : s.current < s.posts.size
  marks : ∀ mark ∈ s.marks, mark.Within s.posts.size
  functions : ∀ c, h.Holds c → c.owner < s.posts.size

lemma Skeleton.Staffed.calls_eq_zero {s : Skeleton} {h} (hs : s.Staffed h) {i}
    (hi : s.posts.size ≤ i) : s.calls i = 0 := by
  rw [calls, countP_eq_zero]
  intro mark hm
  have within := hs.marks mark hm
  cases mark with
  | call owner caller => simpa using Nat.ne_of_lt (Nat.lt_of_lt_of_le within.1 hi)
  | run caller => simp

namespace Machine

variable {rules : Rules} {m : Machine} {limit : Int} {i : Ref}

/-- Every function belongs to an interpreter there is. -/
def Staffed (m : Machine) : Prop :=
  m.skeleton.Staffed m.heap

/-- All interpreters there are count, each with its limit. -/
structure Tallied (limit : Ref → Int) (m : Machine) : Prop where
  staffed : m.Staffed
  counts : ∀ i < m.skeleton.posts.size, m.skeleton.Counts (limit i) i

lemma Calm.staffed {n} (h : Calm True m n) (hm : m.Staffed) : m.skeleton.Staffed n.heap := by
  refine { hm with functions := fun c hc => ?_ }
  rcases h.functions trivial c hc with hc | hc
  · exact hm.functions c hc
  · rw [hc]
    exact hm.current

/-- **A step keeps all counts**, that of an interpreter it makes included. -/
theorem Tallied.step (hh : rules.host.Keeps) {limits : Ref → Int} {first : Nat}
    (new : ∀ i, first ≤ i → limits i = defaultLimit) (size : first ≤ m.skeleton.posts.size)
    (h : m.Tallied limits) :
    (m.step rules).Tallied limits ∧ first ≤ (m.step rules).skeleton.posts.size := by
  cases turn_step (K := True) (fun _ => hh) m with
  | calm calm =>
    have staffed := calm.staffed h.staffed
    rw [← calm.skeleton] at staffed size
    exact ⟨⟨staffed, fun i hi => counts_step (h.counts i (calm.skeleton ▸ hi))⟩, size⟩
  | @entered o calm c hc room skeleton heap =>
    have staffed := calm.staffed h.staffed
    have same : (m.step rules).skeleton.posts.size = m.skeleton.posts.size := by
      simp [skeleton, calm.skeleton, Skeleton.enter, Skeleton.count]
    refine ⟨⟨?_, fun i hi => counts_step (h.counts i (same ▸ hi))⟩, same ▸ size⟩
    have owner := h.staffed.functions c hc
    refine ⟨?_, ?_, ?_⟩
    · rw [same, skeleton]
      exact owner
    · rw [same, skeleton, calm.skeleton]
      refine forall_mem_cons.2 ⟨⟨owner, h.staffed.current⟩, h.staffed.marks⟩
    · rw [same, heap]
      exact staffed.functions
  | @left mark marks top o skeleton heap calm =>
    have same : o.skeleton.posts.size = m.skeleton.posts.size := by
      rw [skeleton]
      cases mark <;> simp [Skeleton.leave, Skeleton.count]
    have before := h.staffed.marks
    rw [top] at before
    obtain ⟨within, rest⟩ := forall_mem_cons.1 before
    have staffed : o.Staffed := by
      refine ⟨?_, ?_, ?_⟩
      · rw [same, skeleton]
        cases mark with
        | call owner caller => exact within.2
        | run caller => exact within
      · rw [same, skeleton]
        cases mark <;> simpa [Skeleton.leave, top] using rest
      · rw [same, heap]
        exact h.staffed.functions
    have after := calm.staffed staffed
    rw [← calm.skeleton] at after same
    exact ⟨⟨after, fun i hi => counts_step (h.counts i (same ▸ hi))⟩, same ▸ size⟩
  | begun calm globals skeleton heap =>
    have staffed := calm.staffed h.staffed
    have same : (m.step rules).skeleton.posts.size = m.skeleton.posts.size + 1 := by
      simp [skeleton, calm.skeleton, begin]
    refine ⟨⟨⟨?_, ?_, ?_⟩, fun i hi => ?_⟩, by omega⟩
    · rw [same, skeleton, calm.skeleton]
      exact Nat.lt_succ_self _
    · rw [same, skeleton, calm.skeleton]
      refine forall_mem_cons.2 ⟨Nat.lt_succ_of_lt h.staffed.current, fun mark hm => ?_⟩
      exact (h.staffed.marks mark hm).mono (Nat.le_succ _)
    · rw [same, heap]
      exact fun c hc => Nat.lt_succ_of_lt (staffed.functions c hc)
    · rcases Nat.lt_or_ge i m.skeleton.posts.size with hi' | hi'
      · exact counts_step (h.counts i hi')
      · -- The new interpreter: none of its functions has been called yet.
        obtain rfl : i = m.skeleton.posts.size := by omega
        refine ⟨⟨defaultLimit, 0, globals, true⟩, ?_, (new _ size).symm, ?_, Int.le_max_left _ _⟩
        · simp [skeleton, calm.skeleton, begin]
        · rw [skeleton, calm.skeleton]
          have none := h.staffed.calls_eq_zero (Nat.le_refl _)
          simpa [begin, calls] using none.symm

lemma Tallied.bounds {limits : Ref → Int} {first : Nat}
    (new : ∀ i, first ≤ i → limits i = defaultLimit) (size : first ≤ m.skeleton.posts.size)
    (h : m.Tallied limits) (j) : m.Bounds (limits j) j := by
  rcases Nat.lt_or_ge j m.skeleton.posts.size with hj | hj
  · exact .of_counts (h.counts j hj)
  · have none := h.staffed.calls_eq_zero hj
    have post := post_interpreter m j
    rw [Array.getD_eq_getD_getElem?, Array.getElem?_eq_none hj, Option.getD_none] at post
    refine ⟨?_, ?_, ?_⟩
    · rw [new j (Nat.le_trans size hj)]
      exact congrArg Post.limit post
    · rw [activations_eq, none]
      exact congrArg Post.depth post
    · rw [activations_eq, none]
      exact Int.le_max_left _ _

/-! ### Runs -/

/-- No call is under way. -/
def Idle (m : Machine) : Prop :=
  ∀ i, (m.interpreter i).depth = 0

lemma skeleton_startRun (m : Machine) (i p) : (m.startRun i p).skeleton =
    { m.skeleton with
      marks := .run m.current :: m.skeleton.marks
      current := i
      collectors := i :: m.collectors } := by
  rw [startRun, (Calm.of_works (K := False) (.runStatements ..)).skeleton]
  rfl

lemma Idle.counts (h : m.Idle) {j} (hj : j < m.interpreters.size) (i p) :
    (m.atRest.startRun i p).skeleton.Counts (m.interpreter j).limit j := by
  have found : m.interpreters[j]? = some (m.interpreter j) := by
    simp [interpreter, Array.getElem?_eq_getElem hj]
  refine ⟨(m.interpreter j).post, ?_, rfl, ?_, ?_⟩
  · rw [skeleton_startRun]
    simp [skeleton, atRest, found]
  · rw [skeleton_startRun]
    simpa [skeleton, atRest, calls, Interpreter.post] using h j
  · rw [Interpreter.post, h j]
    exact Int.le_max_left _ _

lemma Idle.tallied (h : m.Idle) (staffed : m.Staffed) {i} (hi : i < m.interpreters.size) (p) :
    (m.atRest.startRun i p).Tallied fun j => (m.interpreter j).limit := by
  have size : (m.atRest.startRun i p).skeleton.posts.size = m.interpreters.size := by
    rw [skeleton_startRun]
    simp [skeleton, atRest]
  have known : m.skeleton.posts.size = m.interpreters.size := Array.size_map
  refine ⟨⟨?_, ?_, ?_⟩, fun j hj => h.counts (size ▸ hj) i p⟩
  · rw [size, skeleton_startRun]
    exact hi
  · rw [size, skeleton_startRun]
    have current := staffed.current
    rw [known] at current
    exact forall_mem_cons.2 ⟨current, forall_mem_nil _⟩
  · rw [size, ← known]
    rw [heap_startRun]
    exact staffed.functions

/-- The interpreter `j` is known to be there when a run on `i` starts; or it may come later, and only
interpreters make functions. -/
def Known (rules : Rules) (m : Machine) (i j : Ref) : Prop :=
  j < m.interpreters.size ∨ rules.host.Keeps ∧ m.Staffed ∧ i < m.interpreters.size

/-- The limit of an interpreter that is there, and of one that is made for the text of a script. -/
def limitOf (m : Machine) (j : Ref) : Int :=
  if j < m.interpreters.size then (m.interpreter j).limit else defaultLimit

lemma limitOf_eq (m : Machine) (j) : m.limitOf j = (m.interpreter j).limit := by
  unfold limitOf
  split
  · rfl
  · rename_i hj
    rw [interpreter, Array.getD_eq_getD_getElem?, Array.getElem?_eq_none (Nat.le_of_not_lt hj)]
    rfl

lemma Idle.bounds (idle : m.Idle) {i j} (known : m.Known rules i j) (p) (n : Nat) :
    ((Machine.step rules)^[n] (m.atRest.startRun i p)).Bounds (m.limitOf j) j := by
  rw [limitOf_eq]
  rcases known with hj | ⟨hh, staffed, hi⟩
  · refine .of_counts ?_
    induction n with
    | zero => exact idle.counts hj i p
    | succ n ih =>
      rw [Function.iterate_succ_apply']
      exact counts_step ih
  · have new (k : Ref) (hk : m.interpreters.size ≤ k) : (m.interpreter k).limit = defaultLimit := by
      rw [← limitOf_eq, limitOf, if_neg (Nat.not_lt_of_le hk)]
    have start : m.interpreters.size ≤ (m.atRest.startRun i p).skeleton.posts.size := by
      rw [skeleton_startRun]
      simp [skeleton, atRest]
    have all : ((Machine.step rules)^[n] (m.atRest.startRun i p)).Tallied
        (fun k => (m.interpreter k).limit) ∧ m.interpreters.size ≤
          ((Machine.step rules)^[n] (m.atRest.startRun i p)).skeleton.posts.size := by
      induction n with
      | zero => exact ⟨idle.tallied staffed hi p, start⟩
      | succ n ih =>
        rw [Function.iterate_succ_apply']
        exact ih.1.step hh new ih.2
    exact all.1.bounds new all.2 j

/-! ### Calls -/

/-- A function of a script is about to be called with enough arguments, the conversion of which leaves
the heap `h`. -/
def Calling (m : Machine) (c : Closure) (place : Option Location) (h : Heap) : Prop :=
  ∃ f r arguments values, m.control = .apply (.value f) arguments place ∧
    f.datum? = some (.callable r) ∧ m.heap.function r = .closure c ∧
    c.code.params.length ≤ arguments.length ∧ arguments.mapM Value.convert m.heap = .ok values h

/-- The function of a script that is about to be called, where, and the heap after the conversion of
its arguments. -/
def calling? (m : Machine) : Option (Closure × Option Location × Heap) :=
  match m.control with
  | .apply (.value f) arguments place =>
    match f.datum? with
    | some (.callable r) =>
      match m.heap.function r with
      | .closure c =>
        if c.code.params.length ≤ arguments.length then
          match arguments.mapM Value.convert m.heap with
          | .ok _ h => some (c, place, h)
          | .error _ _ => none
        else none
      | .native _ => none
    | _ => none
  | _ => none

variable {c : Closure} {place : Option Location} {h : Heap}

lemma calling_of_calling? (hc : m.calling? = some (c, place, h)) : m.Calling c place h := by
  unfold calling? at hc
  split at hc
  · rename_i f arguments _ control
    split at hc
    · rename_i r callable
      split at hc
      · rename_i closure
        split at hc
        · rename_i enough
          split at hc
          · rename_i values _ converted
            cases hc
            exact ⟨f, r, arguments, values, control, callable, closure, enough, converted⟩
          · cases hc
        · cases hc
      · cases hc
    · cases hc
  · cases hc

lemma Calling.step (hc : m.Calling c place h) : ∃ self values, m.step rules =
      ({ m with heap := h } : Machine).enter c self values place := by
  obtain ⟨f, r, arguments, values, control, callable, closure, enough, converted⟩ := hc
  have kind : f.kind = .ok .callable := by
    cases f with
    | boxed d mark =>
      cases callable
      rfl
    | raw d =>
      cases callable
      rfl
    | alien a => cases a <;> cases callable
  have few : ¬ (arguments.length : Int) < (Callable.closure c).arity := by
    simp only [Callable.arity]
    omega
  refine ⟨.boxed (.callable r), (Callable.closure c).accepted values, ?_⟩
  simp only [Machine.step, control, Machine.apply, kind, callable, closure, Machine.call, if_neg few,
    onHeap_eq, converted]

/-- **A call beyond the limit is refused, any other one is entered.** -/
theorem Calling.refused_or_entered
    (hc : m.Calling c place h) (hb : m.Bounds limit c.owner) :
    if limit ≤ m.activations c.owner then
      m.step rules = ({ m with heap := h } : Machine).raise (.tooDeep limit c.code.name) place
    else (m.step rules).activations c.owner = m.activations c.owner + 1 := by
  obtain ⟨self, values, he⟩ := @Calling.step rules _ _ _ _ hc
  have same : (({ m with heap := h } : Machine).interpreter c.owner) = m.interpreter c.owner := rfl
  have full : (m.interpreter c.owner).limit ≤ (m.interpreter c.owner).depth ↔
      limit ≤ m.activations c.owner := by
    rw [hb.allowed, hb.depth]
  rw [he, enter, same]
  split
  · rename_i refused
    rw [if_pos (full.2 refused), hb.allowed]
  · rename_i room
    rw [if_neg (mt full.1 room)]
    simp [activations, newFrame, updateInterpreter, Pending.isCallOf]

/-- **The limit of nested calls.**  At every moment of a run that starts while no function is being
called, the calls under way of functions of one interpreter are at most as many as that interpreter
allows.  One that would be more is refused.  An interpreter that is made for the text of a script
allows the default number. -/
theorem activations_le_limit (idle : m.Idle) {i j : Ref} (known : m.Known rules i j) (p : Program)
    (n : Nat) :
    let s := (Machine.step rules)^[n] (m.atRest.startRun i p)
    (s.activations j : Int) ≤ max 0 (m.limitOf j) ∧
    ∀ c place h, s.Calling c place h → c.owner = j →
      if m.limitOf j ≤ s.activations j then
        s.step rules = ({ s with heap := h } : Machine).raise (.tooDeep (m.limitOf j) c.code.name) place
      else (s.step rules).activations j = s.activations j + 1 := by
  have bounds := idle.bounds known p n
  refine ⟨bounds.bound, ?_⟩
  rintro c place h calling rfl
  exact calling.refused_or_entered bounds

/-- In a run that allows two nested calls, a function that calls itself is refused the third one. -/
theorem activations_le_limit_recursion : ∃ (u : CompiledUnit) (n : Nat) (c : Closure)
    (place : Option Location),
    (DynScript.compile "fun f() { f(); } f();" {} .standard [] {}).result = .ok u ∧
    let s := (Machine.step {})^[n] ((initial .standard {} {} 2 true).atRest.startRun 0 u.program)
    s.activations 0 = 2 ∧ (s.activations 0 : Int) ≤ max 0 2 ∧
      ∃ h, s.step {} = ({ s with heap := h } : Machine).raise (.tooDeep 2 c.code.name) place := by
  have computed : (DynScript.compile "fun f() { f(); } f();" {} .standard [] {}).result.toOption.any
      (fun u =>
        let s := (Machine.step {})^[20] ((initial .standard {} {} 2 true).atRest.startRun 0 u.program)
        decide (s.activations 0 = 2) && s.calling?.any fun x => x.1.owner = 0) = true := by
    decide +kernel
  obtain ⟨u, hu, computed⟩ := (Option.any_eq_true _ _).1 computed
  have idle : (initial .standard {} {} 2 true).Idle := by
    intro i
    cases i <;> rfl
  have result := @activations_le_limit {} _ idle 0 0 (.inl Nat.one_pos) u.program 20
  dsimp only at computed result
  generalize hs : (Machine.step {})^[20] _ = s at computed result
  simp only [Bool.and_eq_true, decide_eq_true_eq, Option.any_eq_true] at computed
  obtain ⟨calls, ⟨c, place, h⟩, called, owner⟩ := computed
  have refused := result.2 c place h (calling_of_calling? called) owner
  have full : (initial .standard {} {} 2 true).limitOf 0 ≤ s.activations 0 := by
    rw [calls]
    decide
  rw [if_pos full] at refused
  subst hs
  exact ⟨u, 20, c, place, eq_ok_of_toOption hu, calls, result.1, h, refused⟩

/-- **The calls of all interpreters together are not bounded by the limit of the run.**  A function that
came out of the text of a script is called in a run that allows no calls. -/
theorem evaluated_call_exceeds_limit : ∃ (u : CompiledUnit) (n : Nat),
    (DynScript.compile "var f = $Eval(\"(fun () { return 1; });\"); f();" {} .standard []
      {}).result = .ok u ∧ u.ok ∧
    let m := initial .standard {} {} 0 true
    (m.interpreter 0).limit = 0 ∧
      0 < ((Machine.step {})^[n] (m.atRest.startRun 0 u.program)).nestedCalls ∧
      (m.run {} 40 0 u.program).1.toBool := by
  have computed : (DynScript.compile "var f = $Eval(\"(fun () { return 1; });\"); f();" {}
      .standard [] {}).result.toOption.any (fun u =>
        let m := initial .standard {} {} 0 true
        u.ok && (0 < ((Machine.step {})^[19] (m.atRest.startRun 0 u.program)).nestedCalls &&
          (m.run {} 40 0 u.program).1.toBool)) = true := by decide +kernel
  obtain ⟨u, hu, computed⟩ := (Option.any_eq_true _ _).1 computed
  simp only [Bool.and_eq_true, decide_eq_true_eq] at computed
  exact ⟨u, 19, eq_ok_of_toOption hu, computed.1, rfl, computed.2⟩

end Machine

end DynScript

import DynScript.Proofs.CallDepth
import DynScript.Proofs.DynamicSoundness
import DynScript.Session

/-!
# The number of nested calls is restored

A session runs units and calls functions on one interpreter, one after the other.
-/

namespace DynScript

namespace Session

/-- A session on an interpreter with the given limit, and what has been done in it: units compiled
and run, functions called, natives added, variables forgotten, all to an end. -/
inductive Lived (rules : Rules) (limit : Int) : Session → Prop where
  | new (registry : Registry) (supply : Supply) (world : World) (relinks : Bool) :
    Lived rules limit { machine := .initial registry supply world limit relinks }
  | compile {s : Session} (h : Lived rules limit s) (source : String) (options : CompileOptions)
    (linked : Bool) : Lived rules limit (s.compile source options linked).2
  | run {s : Session} (h : Lived rules limit s) {fuel : Nat} {u}
    (ended : (s.run rules fuel u).1 ≠ .error .unfinished) : Lived rules limit (s.run rules fuel u).2
  | runSource {s : Session} (h : Lived rules limit s) {fuel : Nat} {source}
    {options}
    (ended : (s.runSource rules fuel source options).1 ≠ .error .unfinished) :
    Lived rules limit (s.runSource rules fuel source options).2
  | call {s : Session} (h : Lived rules limit s) {fuel : Nat} {name} {arguments}
    (ended : (s.call rules fuel name arguments).1 ≠ .error .unfinished) :
    Lived rules limit (s.call rules fuel name arguments).2
  | register {s : Session} (h : Lived rules limit s) (name : String) (f : NativeFunction)
    (arity : Option Int) : Lived rules limit (s.register name f arity).2
  | reset {s : Session} (h : Lived rules limit s) : Lived rules limit s.reset

/-- What the machine of a session is about to do when a program is run or a function is called. -/
inductive Begins (s : Session) : Machine → Prop where
  | run (p : Program) : Begins s (s.machine.atRest.startRun Machine.mainInterpreter p)
  | call (f : Value) (arguments : List Value) :
    Begins s (s.machine.atRest.go (.apply (.value f) arguments none))

/-- A state that a session goes through. -/
def Moment (rules : Rules) (s : Session) (m : Machine) : Prop :=
  ∃ start n, s.Begins start ∧ m = (Machine.step rules)^[n] start

/-- The limits of the interpreters of a session: that of its own one, and that of those made for the
texts of scripts. -/
def limits (limit : Int) (i : Ref) : Int :=
  if i = Machine.mainInterpreter then limit else defaultLimit

lemma limits_of_pos (limit : Int) (i) (hi : 1 ≤ i) : limits limit i = defaultLimit :=
  if_neg (ne_of_gt hi)

end Session

/-- What matters of an interpreter for its calls: its limit and the calls that are nested. -/
def Post.count (p : Post) : Int × Nat :=
  (p.limit, p.depth)

lemma Skeleton.Counts.congr {s t : Skeleton} {limit : Int} {i} (h : s.Counts limit i)
    (posts : t.posts.map Post.count = s.posts.map Post.count) (calls : t.calls i = s.calls i) :
    t.Counts limit i := by
  obtain ⟨p, hp, rfl, depth, bound⟩ := h
  have same := congrArg (fun a : Array (Int × Nat) => a[i]?) posts
  simp only [Array.getElem?_map, hp, Option.map_some] at same
  obtain ⟨q, hq, same⟩ := Option.map_eq_some_iff.1 same
  obtain ⟨limits, depths⟩ := Prod.mk.inj same
  exact ⟨q, hq, limits, by rw [depths, calls, depth], by rw [depths]; exact bound⟩

namespace Machine

variable {rules : Rules} {K : Prop} {m n : Machine} {limit : Int}

/-- The interpreter of a session counts its calls; if `K` is asked for, all interpreters do. -/
structure Audited (K : Prop) (limit : Int) (m : Machine) : Prop where
  main : m.skeleton.Counts limit mainInterpreter
  all : K → m.Tallied (Session.limits limit)

namespace Audited

lemma lt_size (h : m.Audited K limit) : 1 ≤ m.skeleton.posts.size :=
  h.main.lt_size

/-- **A step keeps all counts.** -/
theorem step (hK : K → rules.host.Keeps) (h : m.Audited K limit) :
    (m.step rules).Audited K limit where
  main := counts_step h.main
  all k := (Tallied.step (hK k) (Session.limits_of_pos limit) h.lt_size (h.all k)).1

lemma iterate (hK : K → rules.host.Keeps) (h : m.Audited K limit) (k : Nat) :
    ((Machine.step rules)^[k] m).Audited K limit := by
  induction k with
  | zero => exact h
  | succ k ih =>
    rw [Function.iterate_succ_apply']
    exact ih.step hK

section

variable (h : m.Audited K limit)
include h

lemma bounds {i} (hi : i = mainInterpreter ∨ K) : m.Bounds (Session.limits limit i) i := by
  rcases hi with rfl | hK
  · exact .of_counts h.main
  · exact (h.all hK).bounds (Session.limits_of_pos limit) h.lt_size i

lemma of_calls
    (posts : n.skeleton.posts.map Post.count = m.skeleton.posts.map Post.count)
    (calls : ∀ i, n.skeleton.calls i = m.skeleton.calls i) (staffed : K → n.Staffed) :
    n.Audited K limit where
  main := h.main.congr posts (calls _)
  all hK := by
    have size : n.skeleton.posts.size = m.skeleton.posts.size := by
      simpa using congrArg Array.size posts
    exact ⟨staffed hK, fun i hi => ((h.all hK).counts i (size ▸ hi)).congr posts (calls i)⟩

lemma of_eq (skeleton : n.skeleton = m.skeleton) (heap : n.heap = m.heap) :
    n.Audited K limit := by
  refine h.of_calls (by rw [skeleton]) (fun _ => by rw [skeleton]) fun hK => ?_
  have staffed := (h.all hK).staffed
  rwa [Machine.Staffed, ← skeleton, ← heap] at staffed

lemma startRun (p) : (m.startRun mainInterpreter p).Audited K limit := by
  refine h.of_calls (by rw [skeleton_startRun]) (fun i => ?_) fun hK => ?_
  · rw [skeleton_startRun, Skeleton.calls, List.countP_cons]
    rfl
  · have staffed := (h.all hK).staffed
    rw [Machine.Staffed, skeleton_startRun, heap_startRun]
    exact ⟨h.lt_size, List.forall_mem_cons.2 ⟨staffed.current, staffed.marks⟩, staffed.functions⟩

lemma atRest (hs : m.stack = []) : m.atRest.Audited K limit := by
  have marks : m.atRest.skeleton.marks = m.skeleton.marks := by
    simp only [skeleton, hs]
    rfl
  refine h.of_calls rfl (fun i => by rw [Skeleton.calls, Skeleton.calls, marks]) fun hK => ?_
  have staffed := (h.all hK).staffed
  exact ⟨staffed.current, marks ▸ staffed.marks, staffed.functions⟩

end

lemma finish (hK : K → rules.host.Keeps) (h : m.Audited K limit) {fuel : Nat}
    (ended : (m.finish rules fuel).1 ≠ .error .unfinished) :
    (m.finish rules fuel).2.atRest.Audited K limit := by
  have last : (m.finish rules fuel).2 = m.steps rules fuel := by
    unfold Machine.finish
    dsimp only
    split <;> rfl
  rw [last]
  refine Audited.atRest (steps_eq_iterate rules fuel m ▸ h.iterate hK fuel) ?_
  -- Only a machine that has come to rest is done.
  cases outcome : (m.steps rules fuel).outcome? with
  | some o => exact stack_of_outcome? outcome
  | none =>
    unfold Machine.finish at ended
    simp only [outcome] at ended
    exact absurd rfl ended

lemma initial (registry supply world) (limit : Int) (relinks : Bool) :
    (initial registry supply world limit relinks).Audited K limit := by
  have main : (Machine.initial registry supply world limit relinks).skeleton.Counts limit
      mainInterpreter := by
    refine ⟨⟨limit, 0, 0, relinks⟩, ?_, rfl, rfl, Int.le_max_left _ _⟩
    simp [Machine.initial, newInterpreter, newFrame, skeleton, mainInterpreter, Interpreter.post]
  have size : (Machine.initial registry supply world limit relinks).skeleton.posts.size = 1 := by
    simp [Machine.initial, newInterpreter, newFrame, skeleton]
  refine ⟨main, fun _ => ⟨⟨size ▸ Nat.one_pos, List.forall_mem_nil _, ?_⟩, fun i hi => ?_⟩⟩
  · rintro c ⟨r, hr⟩
    rw [Heap.function, Array.getD_eq_getD_getElem?] at hr
    cases hr
  · obtain rfl : i = mainInterpreter := Nat.lt_one_iff.1 (size ▸ hi)
    exact main

lemma reset (h : m.Audited K limit) (i) : (m.reset i).Audited K limit := by
  have posts : (m.reset i).skeleton.posts.map Post.count = m.skeleton.posts.map Post.count := by
    refine Array.ext_getElem? fun j => ?_
    simp only [skeleton, Machine.reset, newFrame, updateInterpreter, Array.getElem?_map,
      Array.getElem?_modify]
    split <;> cases m.interpreters[j]? <;> rfl
  have size : (m.reset i).skeleton.posts.size = m.skeleton.posts.size := by
    simpa using congrArg Array.size posts
  refine h.of_calls posts (fun _ => rfl) fun hK => ?_
  have staffed := (h.all hK).staffed
  exact ⟨size ▸ staffed.current, size ▸ staffed.marks, size ▸ staffed.functions⟩

end Audited

end Machine

namespace Session

variable {rules : Rules} {K : Prop} {limit : Int} {s : Session}

lemma machine_compile (s : Session) (source options) (linked : Bool) :
    (s.compile source options linked).2.machine =
      (s.machine.compile source options (if linked then s.exported else [])).2 := by
  unfold Session.compile
  split <;> rename_i compiled <;> rw [compiled]

/-- **Between runs and calls, the machine of a session is audited with nothing pending.** -/
theorem Lived.audited (hK : K → rules.host.Keeps) (h : s.Lived rules limit) :
    s.machine.atRest.Audited K limit := by
  induction h with
  | new registry supply world relinks => exact .initial registry supply world limit relinks
  | @compile s _ source options linked ih =>
    rw [machine_compile]
    exact ih.of_eq rfl rfl
  | run _ ended ih => exact (ih.startRun _).finish hK ended
  | @runSource s _ fuel source options ended ih =>
    unfold Session.runSource Machine.runSource at ended ⊢
    have compiled : (s.machine.compile source options []).2.atRest.Audited K limit :=
      ih.of_eq rfl rfl
    generalize s.machine.compile source options [] = c at ended compiled
    obtain ⟨result, m⟩ := c
    cases result with
    | error e => exact compiled
    | ok u =>
      dsimp only at ended ⊢
      split at ended
      · rename_i ok
        rw [if_pos ok]
        exact (compiled.startRun _).finish hK ended
      · rename_i failed
        rw [if_neg failed]
        exact compiled
  | @call s _ fuel name arguments ended ih =>
    unfold Session.call at ended ⊢
    cases found : s.value name with
    | error e => exact ih
    | ok f =>
      rw [found] at ended
      have start : (s.machine.atRest.go (.apply (.value f) arguments none)).Audited K limit :=
        ih.of_eq rfl rfl
      exact start.finish hK ended
  | register _ name f arity ih => exact ih.of_eq rfl rfl
  | reset _ ih => exact ih.reset Machine.mainInterpreter

lemma Lived.bounds (h : s.Lived rules limit) {i}
    (hi : i = Machine.mainInterpreter ∨ rules.host.Keeps) {m} (hm : s.Moment rules m) :
    m.Bounds (limits limit i) i := by
  obtain ⟨start, n, begins, rfl⟩ := hm
  have rest := h.audited (K := rules.host.Keeps) id
  refine Machine.Audited.bounds (Machine.Audited.iterate id ?_ n) hi
  cases begins with
  | run p => exact rest.startRun p
  | call f arguments => exact rest.of_eq rfl rfl

end Session

end DynScript

import DynScript.Proofs.Effects

/-!
# The skeleton of a run

What a step does to values, variables and the world is one thing; what it does to the calls and runs
that are under way is another.

Main declarations: `Machine.Turn`, `Machine.turn_step`.
-/

namespace DynScript

/-- A call or a run under way: a call of a function of `owner`, or a run, for the interpreter
`caller`. -/
inductive Mark where
  | call (owner caller : Ref)
  | run (caller : Ref)
  deriving DecidableEq

/-- The call or run that a pending part is the end of. -/
def Pending.mark? : Pending → Option Mark
  | .call _ owner caller _ => some (.call owner caller)
  | .run caller => some (.run caller)
  | _ => none

lemma mark?_of_isPlain {p : Pending} (h : p.isPlain) : p.mark? = none := by
  cases p with
  | call | run | recordField => cases h
  | _ => rfl

/-- An interpreter without the warnings it has collected. -/
structure Post where
  limit : Int
  depth : Nat
  globals : Ref
  relinks : Bool
  deriving DecidableEq

/-- What is left of an interpreter without its warnings. -/
def Interpreter.post (i : Interpreter) : Post :=
  ⟨i.limit, i.depth, i.globals, i.relinks⟩

/-- The calls and runs under way, the interpreter at work, those that collect warnings, and all
interpreters. -/
structure Skeleton where
  marks : List Mark
  current : Ref
  collectors : List Ref
  posts : Array Post

/-- The calls and runs of a machine. -/
def Machine.skeleton (m : Machine) : Skeleton where
  marks := m.stack.filterMap Pending.mark?
  current := m.current
  collectors := m.collectors
  posts := m.interpreters.map Interpreter.post

namespace Skeleton

/-- Changes the number of nested calls of an interpreter. -/
def count (s : Skeleton) (i : Ref) (f : Nat → Nat) : Skeleton :=
  { s with posts := s.posts.modify i fun p => { p with depth := f p.depth } }

/-- A call is entered. -/
def enter (s : Skeleton) (owner : Ref) : Skeleton :=
  { s.count owner (· + 1) with marks := .call owner s.current :: s.marks, current := owner }

/-- The innermost call or run is left. -/
def leave (s : Skeleton) : Mark → Skeleton
  | .call owner caller => { s.count owner (· - 1) with marks := s.marks.tail, current := caller }
  | .run caller => { s with
      marks := s.marks.tail, current := caller, collectors := s.collectors.tail }

/-- A run begins on a new interpreter. -/
def begin (s : Skeleton) (globals : Ref) : Skeleton where
  marks := .run s.current :: s.marks
  current := s.posts.size
  collectors := s.posts.size :: s.collectors
  posts := s.posts.push ⟨defaultLimit, 0, globals, true⟩

end Skeleton

/-- A host that makes no functions of scripts of its own. -/
def Host.Keeps (host : Host) : Prop :=
  ∀ (symbol : String) (bound arguments : List Value) (h : Heap),
    h.Keeps (host.call symbol bound arguments h).2

namespace Machine

variable {rules : Rules} {K : Prop} {m n o : Machine}

lemma heap_startRun (m : Machine) (i p) : (m.startRun i p).heap = m.heap := by
  unfold startRun runStatements
  dsimp only
  split <;> rfl

lemma interpreter_updateInterpreter (m : Machine) (r i) (f : Interpreter → Interpreter) :
    (m.updateInterpreter r f).interpreter i =
      if r = i ∧ i < m.interpreters.size then f (m.interpreter i) else m.interpreter i := by
  simp only [updateInterpreter, interpreter, Array.getD_eq_getD_getElem?, Array.getElem?_modify]
  by_cases hr : r = i
  · subst hr
    by_cases there : r < m.interpreters.size
    · simp [there]
    · simp [there]
  · simp [hr]

/-- The skeleton is the same.  If `K` is asked for, all functions have been there before or are those
of the interpreter at work. -/
structure Calm (K : Prop) (m n : Machine) : Prop where
  skeleton : n.skeleton = m.skeleton
  functions : K → ∀ c, n.heap.Holds c → m.heap.Holds c ∨ c.owner = m.current

namespace Calm

lemma refl (m) : Calm K m m :=
  ⟨rfl, fun _ _ => .inl⟩

lemma trans (h : Calm K m n) (k : Calm K n o) : Calm K m o where
  skeleton := k.skeleton.trans h.skeleton
  functions hK c hc := by
    have current : n.current = m.current := congrArg Skeleton.current h.skeleton
    rcases k.functions hK c hc with hc | hc
    · exact h.functions hK c hc
    · exact .inr (hc.trans current)

lemma of_keeps (hs : n.skeleton = m.skeleton) (hk : m.heap.Keeps n.heap) : Calm K m n :=
  ⟨hs, fun _ c hc => .inl (hk c hc)⟩

lemma of_eq (hs : n.skeleton = m.skeleton) (hh : n.heap = m.heap) : Calm K m n :=
  of_keeps hs (hh ▸ .refl _)

lemma pend {p : Pending} (hp : p.mark? = none) (c) :
    Calm K m { m with control := c, stack := p :: m.stack } :=
  of_eq (by simp [Machine.skeleton, hp]) rfl

lemma popped {p} {stack} (hs : m.stack = p :: stack) (hp : p.mark? = none) :
    Calm K m { m with stack := stack } := by
  refine of_eq ?_ rfl
  simp only [Machine.skeleton, hs, List.filterMap_cons, hp]

lemma function (m) (code frame) :
    Calm K m { m with heap := (m.heap.newFunction (.closure ⟨code, frame, m.current⟩)).2 } := by
  refine ⟨rfl, fun _ c hc => ?_⟩
  obtain ⟨r, hr⟩ := hc
  rw [Heap.function_newFunction] at hr
  split at hr
  · cases hr
    exact .inr rfl
  · exact .inl ⟨r, hr⟩

lemma updateInterpreter (i) {f : Interpreter → Interpreter} (hf : ∀ n, (f n).post = n.post) :
    Calm K m (m.updateInterpreter i f) := by
  refine of_eq ?_ rfl
  have posts : (m.interpreters.modify i f).map Interpreter.post =
      m.interpreters.map Interpreter.post := by
    refine Array.ext_getElem? fun j => ?_
    simp only [Array.getElem?_map, Array.getElem?_modify]
    split
    · cases m.interpreters[j]? <;> simp [hf]
    · rfl
  simp only [Machine.skeleton, Machine.updateInterpreter, posts]

lemma warn (w) : Calm K m (m.warn w) := by
  refine warn_induct w (of_eq rfl rfl) fun n r h => h.trans ?_
  exact updateInterpreter r fun _ => rfl

/-- **Work is calm.** -/
theorem of_works (h : Works (fun h k => K → h.Keeps k) m n) : Calm K m n := by
  induction h with
  | refl m => exact refl m
  | trans _ _ h k => exact h.trans k
  | pend m hp c => exact pend (mark?_of_isPlain hp) c
  | heap m hh => exact ⟨rfl, fun hK c hc => .inl (hh hK c hc)⟩
  | function m code frame => exact function m code frame
  | warn m w => exact warn w
  | go | frames | world | send => exact of_eq rfl rfl

lemma evalFields (record rest frame place) : Calm K m (m.evalFields record rest frame place) := by
  unfold Machine.evalFields
  split
  · exact of_eq rfl rfl
  · exact pend rfl _

end Calm

/-! ### What a step can do -/

/-- What a step can do to the skeleton: nothing; enter a call that its interpreter allows; leave the
innermost call or run; or begin a run on a new interpreter. -/
inductive Turn (K : Prop) (m n : Machine) : Prop where
  | calm (h : Calm K m n)
  | entered {o : Machine} (h : Calm K m o) {c : Closure} (hc : m.heap.Holds c)
    (room : (m.interpreter c.owner).depth < (m.interpreter c.owner).limit)
    (skeleton : n.skeleton = o.skeleton.enter c.owner) (heap : n.heap = o.heap)
  | left {mark} {marks} (top : m.skeleton.marks = mark :: marks) {o : Machine}
    (skeleton : o.skeleton = m.skeleton.leave mark) (heap : o.heap = m.heap) (h : Calm K o n)
  | begun {o : Machine} (h : Calm K m o) (globals : Ref)
    (skeleton : n.skeleton = o.skeleton.begin globals) (heap : n.heap = o.heap)

lemma post_interpreter (m : Machine) (i) :
    (m.interpreter i).post = m.skeleton.posts.getD i ⟨defaultLimit, 0, 0, true⟩ := by
  simp only [Machine.interpreter, Machine.skeleton, Array.getD_eq_getD_getElem?, Array.getElem?_map]
  cases m.interpreters[i]? <;> rfl

lemma post_congr (h : n.skeleton = m.skeleton) (i) :
    (n.interpreter i).post = (m.interpreter i).post := by
  rw [post_interpreter, post_interpreter, h]

lemma map_modify_post (a : Array Interpreter) (i) (f : Nat → Nat) :
    (a.modify i fun n => { n with depth := f n.depth }).map Interpreter.post =
      (a.map Interpreter.post).modify i fun p => { p with depth := f p.depth } := by
  refine Array.ext_getElem? fun j => ?_
  simp only [Array.getElem?_map, Array.getElem?_modify]
  split <;> cases a[j]? <;> rfl

namespace Turn

lemma leaveCall {exit owner caller place stack}
    (hs : m.stack = .call exit owner caller place :: stack)
    (h : Calm K (({ m with stack := stack } : Machine).leaveCall owner caller) n) : Turn K m n := by
  have top : m.skeleton.marks = .call owner caller :: stack.filterMap Pending.mark? := by
    simp [skeleton, hs, Pending.mark?]
  refine .left top (o := ({ m with stack := stack } : Machine).leaveCall owner caller) ?_ rfl h
  rw [Skeleton.leave, top]
  exact congrArg (Skeleton.mk _ _ _) (map_modify_post m.interpreters owner (· - 1))

lemma leaveRun {caller stack} (hs : m.stack = .run caller :: stack)
    (h : Calm K (({ m with stack := stack } : Machine).leaveRun caller) n) : Turn K m n := by
  have top : m.skeleton.marks = .run caller :: stack.filterMap Pending.mark? := by
    simp [skeleton, hs, Pending.mark?]
  refine .left top (o := ({ m with stack := stack } : Machine).leaveRun caller) ?_ rfl h
  simp only [skeleton, Skeleton.leave, Machine.leaveRun, hs]
  rfl

lemma enter (h : Calm K m n) {c} (hc : m.heap.Holds c)
    (room : (m.interpreter c.owner).depth < (m.interpreter c.owner).limit) (self arguments place) :
    Turn K m (n.enter c self arguments place) := by
  have same := post_congr h.skeleton c.owner
  simp only [Interpreter.post, Post.mk.injEq] at same
  have free : ¬ (n.interpreter c.owner).limit ≤ (n.interpreter c.owner).depth := by
    rw [same.1, same.2.1]
    exact Int.not_le.2 room
  rw [Machine.enter, if_neg free]
  refine .entered h hc room ?_ rfl
  exact congrArg (Skeleton.mk _ _ _) (map_modify_post n.interpreters c.owner (· + 1))

lemma begins (h : Calm K m n) (p place) :
    Turn K m (({ (n.newInterpreter defaultLimit true).2 with
      stack := .site place :: n.stack } : Machine).startRun n.interpreters.size p) := by
  refine .begun h n.frames.size ?_ ?_
  · rw [startRun, (Calm.of_works (K := K) (.runStatements ..)).skeleton]
    simp [skeleton, Skeleton.begin, newInterpreter, newFrame, Pending.mark?, Interpreter.post,
      List.filterMap_cons]
  · exact heap_startRun ..

lemma of_stride (h : Stride (fun h k => K → h.Keeps k) m n) : Turn K m n := by
  cases h with
  | works h => exact .calm (.of_works h)
  | resumes hs hp h =>
    refine .calm ((Calm.popped hs ?_).trans (.of_works h))
    rcases hp with hp | ⟨r, name, rest, frame, place, rfl⟩
    · exact mark?_of_isPlain hp
    · rfl
  | enters h hc room self arguments place => exact enter (.of_works h) hc room self arguments place
  | leavesCall hs h => exact leaveCall hs (.of_works h)
  | leavesRun hs hh => exact leaveRun hs (.of_keeps rfl hh.closures)
  | begins h p place => exact begins (.of_works h) p place
  | builds =>
    have made := (Heap.Adds.newRecord m.heap {}).closures
    refine .calm (Calm.trans ?_ (.evalFields _ _ _ _))
    exact .of_keeps rfl made
  | storesItem a _ _ _ hk =>
    obtain ⟨p, hs, hp⟩ := a.stack_eq
    refine .calm ((Calm.popped hs (mark?_of_isPlain hp)).trans (.of_keeps rfl ?_))
    exact hk.closures.trans (.of_functions_eq rfl)
  | storesField a _ _ hk =>
    obtain ⟨p, hs, hp⟩ := a.stack_eq
    refine .calm ((Calm.popped hs (mark?_of_isPlain hp)).trans (.of_keeps rfl ?_))
    exact hk.closures.trans (.of_functions_eq rfl)
  | fills _ hs hk =>
    refine .calm ((Calm.popped hs rfl).trans (Calm.trans ?_ (.evalFields _ _ _ _)))
    exact .of_keeps rfl (hk.closures.trans (.of_functions_eq rfl))

end Turn

/-- **What a step does to the skeleton.** -/
theorem turn_step (hK : K → rules.host.Keeps) (m) : Turn K m (m.step rules) :=
  .of_stride (stride_step (fun _ _ h _ => h.closures)
    (fun symbol bound arguments h k => hK k symbol bound arguments h) m)

end Machine

end DynScript

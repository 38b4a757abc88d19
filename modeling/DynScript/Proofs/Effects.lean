import DynScript.Proofs.Conclusions
import DynScript.Proofs.Simulation

/-!
# The effects of a step

A step of a machine does one of a few things.  Most steps only *work*: they add to the heap, change
variables and the world, send messages and warnings, and say what is to be done next and what waits for
it.

Main declarations: `Machine.Stride`, `Machine.stride_step`.
-/

namespace DynScript

/-! ### Heaps that are added to -/

/-- From the heap `h` to the heap `k`, arrays and records have only been added, and no functions of
scripts. -/
structure Heap.Adds (h k : Heap) : Prop where
  arrays_size : h.arrays.size ≤ k.arrays.size
  records_size : h.records.size ≤ k.records.size
  arrays : ∀ r, r < h.arrays.size → k.array r = h.array r
  records : ∀ r, r < h.records.size → k.record r = h.record r
  functions : ∀ r, r < h.functions.size → r < k.functions.size ∧ k.function r = h.function r
  closures : h.Keeps k

namespace Heap.Adds

variable {h k l : Heap}

lemma refl (h : Heap) : h.Adds h :=
  ⟨Nat.le_refl _, Nat.le_refl _, fun _ _ => rfl, fun _ _ => rfl, fun _ hr => ⟨hr, rfl⟩, .refl h⟩

lemma trans (hk : h.Adds k) (kl : k.Adds l) : h.Adds l where
  arrays_size := Nat.le_trans hk.arrays_size kl.arrays_size
  records_size := Nat.le_trans hk.records_size kl.records_size
  arrays r hr := (kl.arrays r (Nat.lt_of_lt_of_le hr hk.arrays_size)).trans (hk.arrays r hr)
  records r hr := (kl.records r (Nat.lt_of_lt_of_le hr hk.records_size)).trans (hk.records r hr)
  functions r hr :=
    let ⟨there, same⟩ := hk.functions r hr
    ⟨(kl.functions r there).1, (kl.functions r there).2.trans same⟩
  closures := hk.closures.trans kl.closures

lemma newArray (h : Heap) (items) : h.Adds (h.newArray items).2 where
  arrays_size := by simp [Heap.newArray]
  records_size := Nat.le_refl _
  arrays r hr := by rw [array_newArray, if_neg (Nat.ne_of_lt hr)]
  records _ _ := rfl
  functions _ hr := ⟨hr, rfl⟩
  closures := .of_functions_eq rfl

lemma newRecord (h : Heap) (x) : h.Adds (h.newRecord x).2 where
  arrays_size := Nat.le_refl _
  records_size := by simp [Heap.newRecord]
  arrays _ _ := rfl
  records r hr := by rw [record_newRecord, if_neg (Nat.ne_of_lt hr)]
  functions _ hr := ⟨hr, rfl⟩
  closures := .of_functions_eq rfl

lemma copyFunction (h : Heap) (r) : h.Adds (h.newFunction (h.function r)).2 where
  arrays_size := Nat.le_refl _
  records_size := Nat.le_refl _
  arrays _ _ := rfl
  records _ _ := rfl
  functions s hs := ⟨by simpa [newFunction] using Nat.lt_succ_of_lt hs, by
    rw [function_newFunction, if_neg (Nat.ne_of_lt hs)]⟩
  closures := h.keeps_copy r

end Heap.Adds

instance : Heap.Course Heap.Adds where
  refl := .refl
  trans := .trans
  newArray := .newArray
  newRecord := .newRecord
  copyFunction := .copyFunction

lemma Value.adds_convert (v : Value) (h : Heap) : h.Adds (HeapM.left (v.convert h)) :=
  (v.moves_convert h).1

/-! ### Stores -/

section

variable {c x v : Value} {h : Heap}

lemma Value.of_position {length i : Nat} {kind} (hi : position h x length kind = .ok i) :
    x.number?.bind Number.toInt? = some (i : Int) ∧ i < length := by
  unfold position at hi
  split at hi
  · cases ht : h.text x <;> rw [ht] at hi <;> cases hi
  · rename_i n hn
    split at hi
    · cases hi
    · cases hi
      refine ⟨?_, by omega⟩
      rw [hn]
      congr 1
      omega

/-- **Storing an item**: it fails and has only added to the heap, or it has stored one item of one
array. -/
theorem Value.setIndex_cases (c x v : Value) (h) :
    (∃ e k, c.setIndex x v h = .error e k ∧ h.Adds k) ∨
    ∃ (r : Ref) (i : Nat) (u : Value) (k : Heap), c.datum? = some (.array r) ∧
      x.number?.bind Number.toInt? = some (i : Int) ∧ i < (k.array r).size ∧ h.Adds k ∧
      c.setIndex x v h = .ok u (k.setItem r i u) := by
  unfold Value.setIndex
  simp only [bind, EStateM.bind, HeapM.look]
  cases c.kind with
  | error e => exact .inl ⟨e, h, rfl, .refl h⟩
  | ok kind =>
    cases c.datum? with
    | none => exact .inl ⟨_, h, rfl, .refl h⟩
    | some d =>
      cases d with
      | array r =>
        have adds := v.adds_convert h
        simp only [EStateM.bind]
        cases hv : v.convert h with
        | error e k =>
          rw [hv] at adds
          exact .inl ⟨e, k, rfl, adds⟩
        | ok u k =>
          rw [hv] at adds
          cases hi : position k x (k.array r).size kind with
          | error e => exact .inl ⟨e, k, by simp only [HeapM.look, hi], adds⟩
          | ok i =>
            obtain ⟨stands, inside⟩ := Value.of_position hi
            refine .inr ⟨r, i, u, k, rfl, stands, inside, adds, ?_⟩
            simp only [HeapM.look, hi]
            rfl
      | _ => exact .inl ⟨_, h, rfl, .refl h⟩

/-- **Storing a field**: it fails and has only added to the heap, or it has stored one field of one
record. -/
theorem Value.setField_cases (c x v : Value) (h) :
    (∃ e k, c.setField x v h = .error e k ∧ h.Adds k) ∨
    ∃ r name u k, c.datum? = some (.record r) ∧ fieldName h x = .ok name ∧ h.Adds k ∧
      c.setField x v h = .ok u (k.setField r name u) := by
  unfold Value.setField
  simp only [bind, EStateM.bind, HeapM.look]
  cases c.kind with
  | error e => exact .inl ⟨e, h, rfl, .refl h⟩
  | ok kind =>
    dsimp only
    cases hx : fieldName h x with
    | error e => exact .inl ⟨e, h, rfl, .refl h⟩
    | ok name =>
      cases c.datum? with
      | none => exact .inl ⟨_, h, rfl, .refl h⟩
      | some d =>
        cases d with
        | record r =>
          have adds := v.adds_convert h
          simp only [EStateM.bind]
          cases hv : v.convert h with
          | error e k =>
            rw [hv] at adds
            exact .inl ⟨e, k, rfl, adds⟩
          | ok u k =>
            rw [hv] at adds
            exact .inr ⟨r, name, u, k, rfl, rfl, adds, rfl⟩
        | _ => exact .inl ⟨_, h, rfl, .refl h⟩

end

/-! ### Work -/

/-- A pending part that is neither the end of a call or run nor a record under construction. -/
def Pending.isPlain : Pending → Bool
  | .call .. | .run _ | .recordField .. => false
  | _ => true

namespace Machine

/-- What happens in a step apart from calls, runs and containers that are there.  The changes of the
heap are among those of `A`, except that functions are made. -/
inductive Works (A : Heap → Heap → Prop) : Machine → Machine → Prop where
  | refl (m : Machine) : Works A m m
  | trans {m n o} (h : Works A m n) (k : Works A n o) : Works A m o
  | go (m : Machine) (c : Control) : Works A m (m.go c)
  | pend (m : Machine) {p : Pending} (hp : p.isPlain) (c : Control) :
    Works A m { m with control := c, stack := p :: m.stack }
  | heap (m : Machine) {h} (hh : A m.heap h) : Works A m { m with heap := h }
  | function (m : Machine) (code : FunctionCode) (frame : Ref) :
    Works A m { m with heap := (m.heap.newFunction (.closure ⟨code, frame, m.current⟩)).2 }
  | frames (m : Machine) (F : Array Frame) : Works A m { m with frames := F }
  | world (m : Machine) {w : World} (hw : w.log = m.world.log) : Works A m { m with world := w }
  | send (m : Machine) (supply : Supply) {l} (hl : ∀ e ∈ l, e.source ≠ .machine) :
    Works A m { m with supply := supply, world := m.world.send l }
  | warn (m : Machine) (w : Warning) : Works A m (m.warn w)

/-- An assignment to the item of a container at an index is about to be done, with `stack` pending
behind it. -/
inductive AssignsItem (m : Machine) : (container index : Value) → (stack : List Pending) → Prop where
  | value {v c x} {old} {place} {stack}
    (hc : m.control = .give v) (hs : m.stack = .storeIndex c x old place :: stack) :
    AssignsItem m c x stack
  | step {c x} {op} {frame} {place} {stack}
    (hc : m.control = .give x) (hs : m.stack = .assignIndex c (.step op) frame place :: stack) :
    AssignsItem m c x stack

/-- An assignment to the field of a container under a key is about to be done, with `stack` pending
behind it. -/
inductive AssignsField (m : Machine) : (container key : Value) → (stack : List Pending) → Prop where
  | value {v c x} {old} {place} {stack}
    (hc : m.control = .give v) (hs : m.stack = .storeField c x old place :: stack) :
    AssignsField m c x stack
  | step {c x} {op} {frame} {place} {stack}
    (hc : m.control = .give x) (hs : m.stack = .assignField c (.step op) frame place :: stack) :
    AssignsField m c x stack

variable {stack : List Pending} {c x : Value}

lemma AssignsItem.stack_eq {m : Machine} (h : m.AssignsItem c x stack) :
    ∃ p, m.stack = p :: stack ∧ p.isPlain := by
  cases h with
  | value _ hs => exact ⟨_, hs, rfl⟩
  | step _ hs => exact ⟨_, hs, rfl⟩

lemma AssignsField.stack_eq {m : Machine} (h : m.AssignsField c x stack) :
    ∃ p, m.stack = p :: stack ∧ p.isPlain := by
  cases h with
  | value _ hs => exact ⟨_, hs, rfl⟩
  | step _ hs => exact ⟨_, hs, rfl⟩

lemma AssignsItem.takesUp {m : Machine} (h : m.AssignsItem c x stack) : TakesUp m.control := by
  cases h with
  | value hc _ | step hc _ => rw [hc]; trivial

lemma AssignsField.takesUp {m : Machine} (h : m.AssignsField c x stack) : TakesUp m.control := by
  cases h with
  | value hc _ | step hc _ => rw [hc]; trivial

/-- All that a step can do: work, with the innermost pending part or without; enter a call that is
allowed; leave a call or run; begin a run on a new interpreter; begin a record; and store an item, a
field, or a field of the record under construction. -/
inductive Stride (A : Heap → Heap → Prop) (m : Machine) : Machine → Prop where
  | works {n} (h : Works A m n) : Stride A m n
  | resumes {n} {p : Pending} {stack} (hs : m.stack = p :: stack)
    (hp : p.isPlain ∨ ∃ r name rest frame place, p = .recordField r name rest frame place)
    (h : Works A { m with stack := stack } n) (ht : TakesUp m.control) : Stride A m n
  | enters {o : Machine} (h : Works A m o) {c : Closure} (hc : m.heap.Holds c)
    (room : (m.interpreter c.owner).depth < (m.interpreter c.owner).limit) (self : Value)
    (arguments : List Value) (place : Option Location) : Stride A m (o.enter c self arguments place)
  | leavesCall {n} {exit} {owner caller} {place}
    {stack} (hs : m.stack = .call exit owner caller place :: stack)
    (h : Works A (({ m with stack := stack } : Machine).leaveCall owner caller) n)
    (ht : TakesUp m.control) : Stride A m n
  | leavesRun {caller} {stack} (hs : m.stack = .run caller :: stack) {h}
    (hh : m.heap.Adds h) {c} (hc : (∃ v, c = .give v) ∨ ∃ e, c = .raise e)
    (ht : TakesUp m.control) :
    Stride A m { ({ m with stack := stack } : Machine).leaveRun caller with heap := h, control := c }
  | begins {o : Machine} (h : Works A m o) (p : Program) (place : Option Location) :
    Stride A m (({ (o.newInterpreter defaultLimit true).2 with
      stack := .site place :: o.stack } : Machine).startRun o.interpreters.size p)
  | builds {fields} {self} {place} {frame}
    (hc : m.control = .eval (.record fields self place) frame) (F : Array Frame) (inner : Ref) :
    Stride A m (({ m with heap := (m.heap.newRecord {}).2, frames := F } : Machine).evalFields
      m.heap.records.size fields inner place)
  | storesItem {c x : Value} {stack} (h : m.AssignsItem c x stack) {r} {i : Nat}
    {k : Heap} (hr : c.datum? = some (.array r)) (hi : x.number?.bind Number.toInt? = some (i : Int))
    (inside : i < (k.array r).size) (hk : m.heap.Adds k) (v : Value) :
    Stride A m (({ m with stack := stack, heap := k.setItem r i v } : Machine).give v)
  | storesField {c x : Value} {stack} (h : m.AssignsField c x stack) {r}
    {name} {k : Heap} (hr : c.datum? = some (.record r))
    (hx : Value.fieldName m.heap x = .ok name) (hk : m.heap.Adds k) (v : Value) :
    Stride A m (({ m with stack := stack, heap := k.setField r name v } : Machine).give v)
  | fills {r} {name} {rest} {frame} {place}
    {u} {stack} (hc : m.control = .give u)
    (hs : m.stack = .recordField r name rest frame place :: stack) {k : Heap} (hk : m.heap.Adds k)
    (v : Value) : Stride A m (({ m with stack := stack, heap := k.setField r name v } :
      Machine).evalFields r rest frame place)

variable {rules : Rules} {A : Heap → Heap → Prop} {m n o : Machine}

namespace Works

lemma give (m) (v) : Works A m (m.give v) :=
  .go m _

lemma raise (m) (f place) : Works A m (m.raise f place) :=
  .go m _

lemma eval (m) (e frame) {p : Pending} (hp : p.isPlain) : Works A m (m.eval e frame p) :=
  .pend m hp _

lemma exec (m) (s frame) {p : Pending} (hp : p.isPlain) : Works A m (m.exec s frame p) :=
  .pend m hp _

lemma look (m) (f : Heap → Except Fault Value) (place) : Works A m (m.look f place) := by
  unfold Machine.look
  split
  · exact give m _
  · exact raise m _ _

lemma withText (v place) {next : Machine → String → Machine} (hn : ∀ s, Works A m (next m s)) :
    Works A m (m.withText v place next) := by
  unfold Machine.withText
  split
  · exact hn _
  · exact raise m _ _

lemma onWorld (m : Machine) {f : World → World} (v) (hf : (f m.world).log = m.world.log) :
    Works A m ((m.onWorld f).give v) :=
  (world m hf).trans (give _ v)

lemma warnGive (m) (w v) : Works A m ((m.warn w).give v) :=
  (warn m w).trans (give _ v)

lemma newFrame (m) (f) : Works A m (m.newFrame f).2 :=
  .frames m _

lemma runStatements (m) (b rest frame) : Works A m (m.runStatements b rest frame) := by
  unfold Machine.runStatements
  split
  · exact give m _
  · exact exec m _ _ rfl

lemma evalArguments (m) (callee before rest frame place) :
    Works A m (m.evalArguments callee before rest frame place) := by
  unfold Machine.evalArguments
  split
  · exact go m _
  · exact eval m _ _ rfl

lemma withCell (slot frame place) {next : Cell → Machine} (hn : ∀ c, Works A m (next c)) :
    Works A m (m.withCell slot frame place next) := by
  unfold Machine.withCell
  split
  · exact hn _
  · exact raise m _ _

lemma nextRound (m) (condition body step exit next frame) :
    Works A m (m.nextRound condition body step exit next frame) := by
  unfold Machine.nextRound
  split <;> exact eval m _ _ rfl

lemma makeFunction (m) (code frame) :
    Works A m (m.onHeap (HeapM.make (·.newFunction (.closure ⟨code, frame, m.current⟩))) none
      fun m r => m.giveDatum (.callable r)) := by
  rw [onHeap_eq]
  exact (function m code frame).trans (give _ _)

lemma stepExec (m) (s frame) : Works A m (m.stepExec s frame) := by
  unfold Machine.stepExec
  cases s with
  | expression e place => exact go m _
  | block b =>
    dsimp only
    split
    · exact runStatements m _ _ _
    · exact (newFrame m _).trans (runStatements _ _ _ _)
  | jump target value place =>
    cases value with
    | none => exact go m _
    | some e => exact eval m _ _ rfl
  | label target place => exact give m _
  | _ => exact eval m _ _ rfl

/-! #### Operations on the heap -/

section

variable (hA : ∀ h k : Heap, h.Adds k → A h k)

include hA

lemma onHeap {α : Type} {f : HeapM α} (hf : f.Moves Heap.Adds) (place)
    {next : Machine → α → Machine}
    (hn : ∀ a h, f m.heap = .ok a h → Works A { m with heap := h } (next { m with heap := h } a)) :
    Works A m (m.onHeap f place next) := by
  have adds := (hf m.heap).1
  rw [onHeap_eq]
  cases hr : f m.heap with
  | ok a h =>
    rw [hr] at adds
    exact (heap m (hA _ _ adds)).trans (hn a h hr)
  | error e h =>
    rw [hr] at adds
    exact (heap m (hA _ _ adds)).trans (raise _ e place)

lemma convert (m) (v : Value) (place) :
    Works A m (m.onHeap v.convert place fun m v => m.give v) :=
  onHeap hA v.moves_convert place fun _ _ _ => give _ _

lemma giveArray (m) (items) : Works A m (m.giveArray items) :=
  onHeap hA (.make fun h => .newArray h items) none fun _ _ _ => give _ _

lemma storeVariable (m) (c v place) : Works A m (m.storeVariable c v place) :=
  onHeap hA v.moves_convert place fun _ _ _ => (frames _ _).trans (give _ _)

lemma stepEval (m) {e} (he : ∀ fields self place, e ≠ .record fields self place) (frame) :
    Works A m (m.stepEval rules e frame) := by
  cases e with
  | literal value place => exact give m _
  | read slot place => exact withCell _ _ _ fun _ => give m _
  | array items place =>
    cases items with
    | nil => exact giveArray hA m _
    | cons item rest => exact eval m _ _ rfl
  | record fields self place => exact absurd rfl (he fields self place)
  | function name params body exit self place => exact makeFunction m _ _
  | assignVariable slot u place =>
    refine withCell _ _ _ fun c => ?_
    unfold Machine.update
    split
    · exact eval m _ _ rfl
    · split
      · exact eval m _ _ rfl
      · exact raise m _ _
    · split
      · split
        · exact storeVariable hA m _ _ _
        · exact raise m _ _
      · exact raise m _ _
  | native name f arguments place => exact evalArguments m _ _ _ _ _
  | _ => exact eval m _ _ rfl

lemma concludes {arguments place} (hc : Concludes arguments place m n) : Works A m n := by
  induction hc with
  | datum m => exact give m _
  | array m => exact giveArray hA m _
  | input m => exact convert hA m _ place
  | raise m => exact raise m _ place
  | warn w _ ih => exact (warn _ w).trans ih
  | world hl _ _ ih => exact (world _ hl).trans ih

end

end Works

/-! ### Steps -/

namespace Stride

variable (hA : ∀ h k : Heap, h.Adds k → A h k)

lemma source_ne_of_mem_compile (source options natives linked supply) :
    ∀ e ∈ (DynScript.compile source options natives linked supply).log, e.source ≠ .machine := by
  intro e he
  have parts : (∃ x, e = ScanError.log x) ∨ ∃ x, e ∈ ParseError.log x := by
    simp only [DynScript.compile, DynScript.parse, Parser.parse, List.mem_append, List.mem_map] at he
    rcases he with ⟨x, -, rfl⟩ | he
    · exact .inl ⟨x, rfl⟩
    · refine .inr ?_
      split at he <;>
      · obtain ⟨x, -, hx⟩ := List.mem_flatMap.1 he
        exact ⟨x, hx⟩
  rcases parts with ⟨x, rfl⟩ | ⟨x, hx⟩
  · exact LogSource.noConfusion
  · obtain ⟨_, -, rfl⟩ := List.mem_map.1 hx
    exact LogSource.noConfusion

lemma evaluateText (h : Works A m n) (code place) : Stride A m (n.evaluateText code place) := by
  unfold Machine.evaluateText
  split
  · exact .works (h.trans (.warnGive n _ _))
  · rename_i source _
    dsimp only
    have told := h.trans (.send n
      (DynScript.compile source evalOptions n.registry [] n.supply).supply
      (source_ne_of_mem_compile source evalOptions n.registry [] n.supply))
    split
    · exact .works (told.trans (.warnGive _ _ _))
    · split
      · exact .begins told _ place
      · exact .works (told.trans (.warnGive _ _ _))

include hA

lemma callBuiltin (h : Works A m n) (b arguments place) :
    Stride A m (n.callBuiltin b arguments place) := by
  by_cases hb : b = .evaluate
  · subst hb
    exact evaluateText h _ place
  · exact .works (h.trans (.concludes hA (concludes_callBuiltin n hb arguments place)))

/-! #### Calls -/

omit hA in
lemma enter {h} (hh : A m.heap h) {c} (hc : m.heap.Holds c) (self arguments place) :
    Stride A m (({ m with heap := h } : Machine).enter c self arguments place) := by
  by_cases room : (m.interpreter c.owner).depth < (m.interpreter c.owner).limit
  · exact .enters (.heap m hh) hc room self arguments place
  · have refused : ({ m with heap := h } : Machine).enter c self arguments place =
        ({ m with heap := h } : Machine).raise
          (.tooDeep (m.interpreter c.owner).limit c.code.name) place := by
      exact if_pos (Int.not_lt.1 room)
    rw [refused]
    exact .works ((Works.heap m hh).trans (.raise _ _ _))

lemma callHost (host : ∀ symbol bound arguments h, A h (rules.host.call symbol bound arguments h).2)
    (h : Works A m n) (symbol bound arguments place) :
    Stride A m (n.callHost rules symbol bound arguments place) := by
  unfold Machine.callHost
  have made := h.trans (.heap n (host symbol bound arguments n.heap))
  cases hr : rules.host.call symbol bound arguments n.heap with
  | mk answer heap =>
    rw [hr] at made
    dsimp only
    cases answer with
    | value v => exact .works (made.trans (.convert hA _ v place))
    | error e => exact .works (made.trans (.go _ _))
    | invoke f arguments => exact .works (made.trans (.pend _ rfl _))

lemma call (host : ∀ symbol bound arguments h, A h (rules.host.call symbol bound arguments h).2) {c}
    (hc : ∀ f, c = .closure f → m.heap.Holds f) (self arguments place) :
    Stride A m (m.call rules c self arguments place) := by
  unfold Machine.call
  split
  · exact .works (.raise m _ place)
  · have adds := (HeapM.Moves.mapM (S := Heap.Adds) Value.moves_convert arguments m.heap).1
    rw [onHeap_eq]
    cases hr : arguments.mapM Value.convert m.heap with
    | error e h =>
      rw [hr] at adds
      exact .works ((Works.heap m (hA _ _ adds)).trans (.raise _ e place))
    | ok vs h =>
      rw [hr] at adds
      have converted : Works A m { m with heap := h } := .heap m (hA _ _ adds)
      cases c with
      | closure f => exact enter (hA _ _ adds) (hc f rfl) self _ place
      | native f =>
        dsimp only
        split
        · exact callBuiltin hA converted _ _ place
        · exact callHost hA host converted _ _ _ place

lemma apply (host : ∀ symbol bound arguments h, A h (rules.host.call symbol bound arguments h).2)
    (callee arguments place) : Stride A m (m.apply rules callee arguments place) := by
  unfold Machine.apply
  split
  · exact call hA host (fun f hf => by cases hf) _ _ place
  · split
    · exact .works (.raise m _ place)
    · split
      · rename_i r _
        exact call hA host (fun f hf => ⟨r, hf⟩) _ _ place
      · exact .works (.raise m _ place)

/-! #### Values -/

variable {stack : List Pending} {p : Pending}

lemma storeIndex (h : m.AssignsItem c x stack) (v place) :
    Stride A m (({ m with stack := stack } : Machine).storeIndex c x v place) := by
  obtain ⟨p, hs, hp⟩ := h.stack_eq
  unfold Machine.storeIndex
  rw [onHeap_eq]
  rcases Value.setIndex_cases c x v m.heap with
    ⟨e, k, he, adds⟩ | ⟨r, i, u, k, hr, hi, inside, adds, ho⟩
  · simp only [he]
    exact .resumes hs (.inl hp)
      ((Works.heap { m with stack := stack } (hA _ _ adds)).trans (.raise _ _ _)) h.takesUp
  · simp only [ho]
    exact .storesItem h hr hi inside adds u

lemma storeField (h : m.AssignsField c x stack) (v place) :
    Stride A m (({ m with stack := stack } : Machine).storeField c x v place) := by
  obtain ⟨p, hs, hp⟩ := h.stack_eq
  unfold Machine.storeField
  rw [onHeap_eq]
  rcases Value.setField_cases c x v m.heap with ⟨e, k, he, adds⟩ | ⟨r, name, u, k, hr, hx, adds, ho⟩
  · simp only [he]
    exact .resumes hs (.inl hp)
      ((Works.heap { m with stack := stack } (hA _ _ adds)).trans (.raise _ _ _)) h.takesUp
  · simp only [ho]
    exact .storesField h hr hx adds u

lemma recordField {r name rest frame place v} (hc : m.control = .give v)
    (hs : m.stack = .recordField r name rest frame place :: stack) :
    Stride A m (({ m with stack := stack } : Machine).resume rules
      (.recordField r name rest frame place) v) := by
  have adds := v.adds_convert m.heap
  simp only [Machine.resume, onHeap_eq]
  cases hr : v.convert m.heap with
  | error e k =>
    rw [hr] at adds
    exact .resumes hs (.inr ⟨r, name, rest, frame, place, rfl⟩)
      ((Works.heap { m with stack := stack } (hA _ _ adds)).trans (.raise _ e place)) (hc ▸ trivial)
  | ok u k =>
    rw [hr] at adds
    exact .fills hc hs adds u

lemma resume {v} (hc : m.control = .give v) (hs : m.stack = p :: stack) :
    Stride A m (({ m with stack := stack } : Machine).resume rules p v) := by
  have takes : TakesUp m.control := hc ▸ trivial
  have works (hp : p.isPlain)
      (h : Works A { m with stack := stack } (({ m with stack := stack } : Machine).resume rules p v)) :
      Stride A m (({ m with stack := stack } : Machine).resume rules p v) :=
    .resumes hs (.inl hp) h takes
  by_cases record : ∃ r name rest frame place, p = .recordField r name rest frame place
  · obtain ⟨r, name, rest, frame, place, rfl⟩ := record
    exact recordField hA hc hs
  unfold Machine.resume at works ⊢
  cases p with
  | recordField r name rest frame place => exact absurd ⟨_, _, _, _, _, rfl⟩ record
  | call exit owner caller place => exact .leavesCall hs (.give _ _) takes
  | run caller =>
    have adds := v.adds_convert m.heap
    simp only [onHeap_eq, Machine.leaveRun]
    cases hr : v.convert m.heap with
    | ok u k =>
      rw [hr] at adds
      exact .leavesRun hs adds (.inl ⟨u, rfl⟩) takes
    | error e k =>
      rw [hr] at adds
      exact .leavesRun hs adds (.inr ⟨_, rfl⟩) takes
  | box place =>
    refine works rfl ?_
    dsimp only
    split
    · exact .give _ _
    · exact .convert hA _ v place
  | arrayItem before rest frame place =>
    refine works rfl (.onHeap hA v.moves_convert place fun v h _ => ?_)
    split
    · exact .giveArray hA _ _
    · exact .eval _ _ _ rfl
  | logicalLeft op right frame =>
    refine works rfl ?_
    dsimp only
    split
    · exact .give _ _
    · exact .give _ _
    · exact .eval _ _ _ rfl
  | storeVariable c old place =>
    refine works rfl ?_
    dsimp only
    split
    · exact .storeVariable hA _ _ _ _
    · exact .raise _ _ _
  | assignIndex container u frame place | assignField container u frame place =>
    cases u with
    | set e => exact works rfl (.eval _ _ _ rfl)
    | combine op e =>
      refine works rfl ?_
      dsimp only [Machine.update]
      split
      · exact .eval _ _ _ rfl
      · exact .raise _ _ _
    | step op =>
      dsimp only [Machine.update] at works ⊢
      split
      · split
        · first
          | exact storeIndex hA (.step hc hs) _ _
          | exact storeField hA (.step hc hs) _ _
        · exact .resumes hs (.inl rfl) (.raise _ _ _) takes
      · exact .resumes hs (.inl rfl) (.raise _ _ _) takes
  | storeIndex container key old place | storeField container key old place =>
    dsimp only
    split
    · first
      | exact storeIndex hA (.value hc hs) _ _
      | exact storeField hA (.value hc hs) _ _
    · exact .resumes hs (.inl rfl) (.raise _ _ _) takes
  | callee arguments frame place => exact works rfl (.evalArguments _ _ _ _ _ _)
  | argument callee before rest frame place => exact works rfl (.evalArguments _ _ _ _ _ _)
  | binaryRight op left place | unary op place | index container place | field container place =>
    exact works rfl (.look _ _ _)
  | declare slot frame place =>
    exact works rfl (.withCell _ _ _ fun c => (Works.frames _ _).trans (.give _ _))
  | print place => exact works rfl (.withText v place fun _ => .onWorld _ _ rfl)
  | block b rest frame =>
    cases rest with
    | nil => exact works rfl (.give _ _)
    | cons s rest => exact works rfl (.exec _ _ _ rfl)
  | branch first second frame =>
    refine works rfl ?_
    dsimp only
    split
    · exact .exec _ _ _ rfl
    · split
      · exact .exec _ _ _ rfl
      · exact .give _ _
  | loopTest condition body step exit next frame =>
    refine works rfl ?_
    dsimp only
    split
    · exact .exec _ _ _ rfl
    · exact .give _ _
  | loopBody condition body step exit next frame => exact works rfl (.nextRound _ _ _ _ _ _ _)
  | unbox | logicalRight | ternary | discard | jumpValue | site => exact works rfl (.go _ _)
  | _ => exact works rfl (.eval _ _ _ rfl)

/-! #### Jumps and errors -/

lemma jumpThrough {target v} (hc : m.control = .jump target v) (hs : m.stack = p :: stack) :
    Stride A m (({ m with stack := stack } : Machine).jumpThrough p target v) := by
  have takes : TakesUp m.control := hc ▸ trivial
  unfold Machine.jumpThrough
  cases p with
  | call exit owner caller place =>
    dsimp only
    split
    · exact .leavesCall hs (.convert hA _ v place) takes
    · exact .leavesCall hs (.refl _) takes
  | run caller => exact .leavesRun hs (.refl _) (.inr ⟨_, rfl⟩) takes
  | block b rest frame =>
    refine .resumes hs (.inl rfl) ?_ takes
    dsimp only
    split
    · exact .runStatements _ _ _ _
    · exact .refl _
  | loopBody condition body step exit next frame =>
    refine .resumes hs (.inl rfl) ?_ takes
    dsimp only
    split
    · exact .give _ _
    · split
      · exact .nextRound _ _ _ _ _ _ _
      · exact .refl _
  | recordField r name rest frame place =>
    exact .resumes hs (.inr ⟨_, _, _, _, _, rfl⟩) (.refl _) takes
  | _ => exact .resumes hs (.inl rfl) (.refl _) takes

omit hA in
lemma raiseThrough (hs : m.stack = p :: stack) {e} (hc : m.control = .raise e) :
    Stride A m (({ m with stack := stack } : Machine).raiseThrough p e) := by
  have takes : TakesUp m.control := hc ▸ trivial
  cases p with
  | call exit owner caller place => exact .leavesCall hs (.refl _) takes
  | run caller => exact .leavesRun hs (.refl _) (.inr ⟨e, hc⟩) takes
  | site place => exact .resumes hs (.inl rfl) (.go _ _) takes
  | recordField r name rest frame place =>
    exact .resumes hs (.inr ⟨_, _, _, _, _, rfl⟩) (.refl _) takes
  | _ => exact .resumes hs (.inl rfl) (.refl _) takes

end Stride

/-- **All that a step can do.**  The relation `A` covers what the functions of the application do to
the heap. -/
theorem stride_step (hA : ∀ h k : Heap, h.Adds k → A h k)
    (host : ∀ symbol bound arguments h, A h (rules.host.call symbol bound arguments h).2) (m) :
    Stride A m (m.step rules) := by
  unfold step
  split
  · rename_i e frame hc
    by_cases record : ∃ fields self place, e = .record fields self place
    · obtain ⟨fields, self, place, rfl⟩ := record
      exact .builds hc _ _
    · exact .works (.stepEval hA m (fun fields self place he => record ⟨fields, self, place, he⟩) frame)
  · exact .works (.stepExec m _ _)
  · exact .apply hA host _ _ _
  · split
    · exact .works (.refl m)
    · exact .resume hA ‹_› ‹_›
  · split
    · exact .works (.refl m)
    · exact .jumpThrough hA ‹_› ‹_›
  · split
    · exact .works (.refl m)
    · exact .raiseThrough ‹_› ‹_›

end Machine

end DynScript

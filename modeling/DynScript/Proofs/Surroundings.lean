import DynScript.Machine.Run
import Mathlib.Tactic.Lemma

/-!
# Steps amid other surroundings

A step looks at the innermost pending part only, and at the limit of nested calls only where a function
of a script is entered.

Main declarations: `Machine.amid`, `Machine.step_amid`.
-/

namespace DynScript

lemma modify_modify_comm {α : Type} (a : Array α) (r i : Nat) {f g : α → α}
    (h : ∀ x, f (g x) = g (f x)) : (a.modify i g).modify r f = (a.modify r f).modify i g := by
  refine Array.ext_getElem? fun j => ?_
  simp only [Array.getElem?_modify]
  by_cases hr : r = j <;> by_cases hi : i = j <;> simp [hr, hi]
  cases a[j]? <;> simp [h]

/-- What a machine does not look at while it works: another limit of an interpreter, and more that is
pending below its stack. -/
structure Surroundings where
  limit : Option (Ref × Int) := none
  below : List Pending := []

namespace Surroundings

/-- The interpreters with the other limit. -/
def limits (o : Surroundings) (a : Array Interpreter) : Array Interpreter :=
  match o.limit with
  | none => a
  | some (i, limit) => a.modify i fun n => { n with limit := limit }

/-- The interpreter whose limit is changed is there. -/
def Inside (o : Surroundings) (m : Machine) : Prop :=
  ∀ i limit, o.limit = some (i, limit) → i < m.interpreters.size

/-- A limit is raised, and what `m` has come to, `n`, is not the refusal of a call. -/
structure Admits (o : Surroundings) (m n : Machine) : Prop where
  inside : o.Inside m
  raised : ∀ i limit, o.limit = some (i, limit) → (m.interpreter i).limit ≤ limit
  accepted : o.limit.isSome → ∀ e, n.control = .raise e → e.fault.category ≠ .callDepth

lemma admits_of_none {o : Surroundings} (h : o.limit = none) (m n) : o.Admits m n where
  inside i limit found := by simp [h] at found
  raised i limit found := by simp [h] at found
  accepted some := by simp [h] at some

end Surroundings

namespace Machine

variable {rules : Rules} {m : Machine} {o : Surroundings}

/-- A machine amid other surroundings. -/
def amid (m : Machine) (o : Surroundings) : Machine :=
  { m with interpreters := o.limits m.interpreters, stack := m.stack ++ o.below }

@[simp] lemma heap_amid (m : Machine) (o) : (m.amid o).heap = m.heap := rfl

@[simp] lemma control_amid (m : Machine) (o) : (m.amid o).control = m.control := rfl

@[simp] lemma world_amid (m : Machine) (o) : (m.amid o).world = m.world := rfl

lemma interpreter_amid (m : Machine) (o r) :
    ∃ limit, (m.amid o).interpreter r = { m.interpreter r with limit := limit } := by
  simp only [interpreter, amid, Surroundings.limits]
  split
  · exact ⟨_, rfl⟩
  · simp only [Array.getD_eq_getD_getElem?, Array.getElem?_modify]
    split
    · cases m.interpreters[r]? <;> exact ⟨_, rfl⟩
    · exact ⟨_, rfl⟩

lemma globals_amid (m : Machine) (o r) :
    ((m.amid o).interpreter r).globals = (m.interpreter r).globals := by
  obtain ⟨_, same⟩ := interpreter_amid m o r
  rw [same]

lemma relinks_amid (m : Machine) (o r) :
    ((m.amid o).interpreter r).relinks = (m.interpreter r).relinks := by
  obtain ⟨_, same⟩ := interpreter_amid m o r
  rw [same]

/-! ### Interpreters and the world -/

lemma updateInterpreter_amid (m : Machine) (r) {f : Interpreter → Interpreter}
    (hf : ∀ (n : Interpreter) (limit : Int), f { n with limit := limit } = { f n with limit := limit }) :
    (m.amid o).updateInterpreter r f = (m.updateInterpreter r f).amid o := by
  have same : (o.limits m.interpreters).modify r f = o.limits (m.interpreters.modify r f) := by
    unfold Surroundings.limits
    split
    · rfl
    · exact modify_modify_comm m.interpreters r _ fun n => hf n _
  exact congrArg (fun a => { m with interpreters := a, stack := m.stack ++ o.below }) same

lemma newInterpreter_amid (hi : o.Inside m) (allowed : Int) (relinks : Bool) :
    ((m.amid o).newInterpreter allowed relinks).2 =
      ((m.newInterpreter allowed relinks).2).amid o := by
  have pushed (n : Interpreter) :
      (o.limits m.interpreters).push n = o.limits (m.interpreters.push n) := by
    unfold Surroundings.limits
    split
    · rfl
    · rename_i i limit found
      refine Array.ext_getElem? fun j => ?_
      simp only [Array.getElem?_push, Array.getElem?_modify, Array.size_modify]
      -- The new interpreter is not the one whose limit is changed.
      by_cases hj : j = m.interpreters.size
      · simp [hj, Nat.ne_of_lt (hi i limit found)]
      · simp [hj]
  simp only [newInterpreter, newFrame, amid, pushed]

lemma warn_amid (m : Machine) (w) : (m.amid o).warn w = (m.warn w).amid o := by
  have collect (l : List Ref) : ∀ n : Machine,
      l.foldl (fun m r => m.updateInterpreter r fun i =>
        { i with warnings := i.warnings.push w.text }) (n.amid o) =
      (l.foldl (fun m r => m.updateInterpreter r fun i =>
        { i with warnings := i.warnings.push w.text }) n).amid o := by
    induction l with
    | nil => exact fun n => rfl
    | cons r l ih =>
      intro n
      rw [List.foldl_cons, List.foldl_cons, updateInterpreter_amid n r fun _ _ => rfl]
      exact ih _
  exact collect m.collectors (m.onWorld (·.send [⟨.warning, .machine, w.text⟩]))

lemma warnGive_amid (m : Machine) (w v) :
    ((m.amid o).warn w).give v = ((m.warn w).give v).amid o :=
  congrArg (·.give v) (warn_amid m w)

/-! ### Outcomes -/

lemma look_amid (m : Machine) (f : Heap → Except Fault Value) (place) :
    (m.amid o).look f place = (m.look f place).amid o := by
  unfold look
  rw [heap_amid]
  cases f m.heap <;> rfl

variable {next : Machine → String → Machine}

lemma withText_amid (v place) (hn : ∀ s, next (m.amid o) s = (next m s).amid o) :
    (m.amid o).withText v place next = (m.withText v place next).amid o := by
  unfold withText
  rw [heap_amid]
  cases m.heap.text v with
  | ok s => exact hn s
  | error e => rfl

lemma onHeap_amid {α : Type} (f place) {next : Machine → α → Machine}
    (hn : ∀ a h, next (({ m with heap := h } : Machine).amid o) a =
      (next { m with heap := h } a).amid o) :
    (m.amid o).onHeap f place next = (m.onHeap f place next).amid o := by
  rw [onHeap_eq, onHeap_eq, heap_amid]
  cases f m.heap with
  | ok a h => exact hn a h
  | error e h => rfl

lemma convert_amid (m : Machine) (v : Value) (place) :
    (m.amid o).onHeap v.convert place (fun m v => m.give v) =
      (m.onHeap v.convert place fun m v => m.give v).amid o :=
  onHeap_amid _ place fun _ _ => rfl

lemma giveArray_amid (m : Machine) (items) :
    (m.amid o).giveArray items = (m.giveArray items).amid o :=
  onHeap_amid _ none fun _ _ => rfl

lemma runStatements_amid (m : Machine) (b rest frame) :
    (m.amid o).runStatements b rest frame =
      (m.runStatements b rest frame).amid o := by
  cases rest <;> rfl

lemma startRun_amid (m : Machine) (r p) : (m.amid o).startRun r p = (m.startRun r p).amid o := by
  unfold startRun
  rw [globals_amid]
  exact runStatements_amid { m with
    frames := m.frames.modify (m.interpreter r).globals fun f => f.extend p.body.slots
    collectors := r :: m.collectors
    stack := .run m.current :: m.stack
    current := r } _ _ _

lemma beginRun_amid (hi : o.Inside m) (p place) :
    ({ ((m.amid o).newInterpreter defaultLimit true).2 with
      stack := .site place :: (m.amid o).stack } : Machine).startRun (m.amid o).interpreters.size p =
    (({ (m.newInterpreter defaultLimit true).2 with
      stack := .site place :: m.stack } : Machine).startRun m.interpreters.size p).amid o := by
  have size : (m.amid o).interpreters.size = m.interpreters.size := by
    simp only [amid, Surroundings.limits]
    split <;> simp
  rw [newInterpreter_amid hi, size]
  exact startRun_amid { (m.newInterpreter defaultLimit true).2 with
    stack := .site place :: m.stack } m.interpreters.size p

/-! ### The standard library -/

lemma concat_amid (m : Machine) (left right) :
    (m.amid o).concat left right = (m.concat left right).amid o := by
  unfold concat
  split
  · split <;> exact giveArray_amid m _
  · exact warnGive_amid m _ _

lemma lengthOf_amid (m : Machine) (v place) :
    (m.amid o).lengthOf v place = (m.lengthOf v place).amid o := by
  unfold lengthOf
  split
  · rfl
  · rfl
  · rfl
  · rfl
  · exact warnGive_amid m _ _

lemma readFile_amid (b path default) (hn : ∀ s, next (m.amid o) s = (next m s).amid o) :
    (m.amid o).readFile b path default next =
      (m.readFile b path default next).amid o := by
  unfold readFile
  split
  · exact warnGive_amid m _ _
  · rw [world_amid]
    split
    · exact hn _
    · exact warnGive_amid m _ _

lemma writeFile_amid (m : Machine) (b path content) :
    (m.amid o).writeFile b path content = (m.writeFile b path content).amid o := by
  unfold writeFile
  rw [world_amid]
  split
  · rfl
  · exact warnGive_amid m _ _

lemma writeTo_amid (b path) {next next' : String → Machine} (hn : ∀ s, next' s = (next s).amid o) :
    (m.amid o).writeTo b path next' = (m.writeTo b path next).amid o := by
  unfold writeTo
  split
  · exact warnGive_amid m _ _
  · exact hn _

lemma withInteger_amid (b argument v) {next : Machine → Int → Machine}
    (hn : ∀ n, next (m.amid o) n = (next m n).amid o) :
    (m.amid o).withInteger b argument v next =
      (m.withInteger b argument v next).amid o := by
  unfold withInteger
  split
  · exact warnGive_amid m _ _
  · split
    · exact hn _
    · exact warnGive_amid m _ _

lemma randomInt_amid (m : Machine) (maximum) :
    (m.amid o).randomInt maximum = (m.randomInt maximum).amid o := by
  refine withInteger_amid _ _ _ fun upper => ?_
  split
  · exact warnGive_amid m _ _
  · rfl

lemma randomRange_amid (m : Machine) (minimum maximum) :
    (m.amid o).randomRange minimum maximum =
      (m.randomRange minimum maximum).amid o := by
  refine withInteger_amid _ _ _ fun lower => withInteger_amid _ _ _ fun upper => ?_
  split
  · rfl
  · split
    · exact warnGive_amid m _ _
    · rfl

lemma push_amid (m : Machine) (b) (installed : Bool) (event : String → Event) (v place) :
    (m.amid o).push b installed event v place =
      (m.push b installed event v place).amid o := by
  unfold push
  split
  · exact withText_amid v place fun _ => rfl
  · exact warnGive_amid m _ _

lemma evaluateText_amid (hi : o.Inside m) (code place) :
    (m.amid o).evaluateText code place = (m.evaluateText code place).amid o := by
  unfold evaluateText
  split
  · exact warnGive_amid m _ _
  · rename_i source _
    let c := DynScript.compile source evalOptions m.registry [] m.supply
    let told : Machine := { m with supply := c.supply, world := m.world.send c.log }
    dsimp only
    rw [show (m.amid o).registry = m.registry from rfl,
      show (m.amid o).supply = m.supply from rfl]
    split
    · exact warnGive_amid told _ _
    · rename_i u _
      split
      · exact beginRun_amid (m := told) hi u.program place
      · exact warnGive_amid told _ _

lemma callBuiltin_amid (hi : o.Inside m) (b arguments place) :
    (m.amid o).callBuiltin b arguments place =
      (m.callBuiltin b arguments place).amid o := by
  unfold callBuiltin
  cases b with
  | concat => exact concat_amid m _ _
  | len => exact lengthOf_amid m _ place
  | toText => exact withText_amid _ place fun _ => rfl
  | debugLog | debugLogLine => exact withText_amid _ place fun _ => rfl
  | debugReadLine | random | ticks => rfl
  | fileReadAllText => exact readFile_amid _ _ _ fun _ => rfl
  | fileReadAllLines => exact readFile_amid _ _ _ fun _ => giveArray_amid m _
  | fileWriteAllText =>
    refine writeTo_amid _ _ fun path => ?_
    split
    · exact warnGive_amid m _ _
    · exact writeFile_amid m _ _ _
  | fileWriteAllLines =>
    refine writeTo_amid _ _ fun path => ?_
    rw [heap_amid]
    split
    · split
      · exact writeFile_amid m _ _ _
      · rfl
    · exact warnGive_amid m _ _
  | randomInt => exact randomInt_amid m _
  | randomRange => exact randomRange_amid m _ _
  | evaluate => exact evaluateText_amid hi _ place
  | warning => exact withText_amid _ place fun _ => warnGive_amid m _ _
  | pushLine | pushFormatLine => exact push_amid m _ _ _ _ place
  | waitInput =>
    dsimp only
    rw [world_amid]
    split
    · exact warnGive_amid m _ _
    · exact convert_amid m _ place
  | clearView =>
    dsimp only
    rw [world_amid]
    split
    · rfl
    · exact warnGive_amid m _ _

/-! ### Calls -/

lemma limit_le_amid (h : ∀ i limit, o.limit = some (i, limit) → (m.interpreter i).limit ≤ limit)
    (r) : (m.interpreter r).limit ≤ ((m.amid o).interpreter r).limit := by
  simp only [interpreter, amid, Surroundings.limits] at h ⊢
  split
  · exact Int.le_refl _
  · rename_i i limit raised
    replace h := h i limit raised
    simp only [Array.getD_eq_getD_getElem?, Array.getElem?_modify] at h ⊢
    split
    · rename_i same
      subst same
      cases found : m.interpreters[i]? with
      | none => exact Int.le_refl _
      | some n => simpa [found] using h
    · exact Int.le_refl _

/-- **A call that is not refused** is not refused amid other surroundings. -/
theorem enter_amid (c self arguments place) (h : o.Admits m (m.enter c self arguments place)) :
    (m.amid o).enter c self arguments place = (m.enter c self arguments place).amid o := by
  by_cases full : (m.interpreter c.owner).limit ≤ (m.interpreter c.owner).depth
  · have none : o.limit = none := by
      cases limit : o.limit with
      | none => rfl
      | some l =>
        have accepted := h.accepted (limit ▸ rfl)
        rw [enter, if_pos full] at accepted
        exact absurd rfl (accepted _ rfl)
    have same : (m.amid o).interpreter c.owner = m.interpreter c.owner := by
      simp only [interpreter, amid, Surroundings.limits, none]
    rw [enter, enter, same, if_pos full, if_pos full]
    rfl
  · have still : ¬ ((m.amid o).interpreter c.owner).limit ≤
        ((m.amid o).interpreter c.owner).depth := by
      have raised := limit_le_amid h.raised c.owner
      obtain ⟨limit, same⟩ := interpreter_amid m o c.owner
      rw [same] at raised ⊢
      dsimp only at raised ⊢
      omega
    have deeper := congrArg Machine.interpreters (updateInterpreter_amid (o := o) m c.owner
      (f := fun i => { i with depth := i.depth + 1 }) fun _ _ => rfl)
    rw [enter, enter, if_neg full, if_neg still]
    simp only [newFrame, updateInterpreter, amid] at deeper ⊢
    rw [deeper]
    rfl

lemma callHost_amid (m : Machine) (symbol bound arguments place) :
    (m.amid o).callHost rules symbol bound arguments place =
      (m.callHost rules symbol bound arguments place).amid o := by
  unfold callHost
  rw [heap_amid]
  rcases rules.host.call symbol bound arguments m.heap with ⟨answer, heap⟩
  cases answer with
  | value v => exact convert_amid { m with heap := heap } v place
  | error e => rfl
  | invoke f arguments => rfl

lemma call_amid (c self arguments place) (h : o.Admits m (m.call rules c self arguments place)) :
    (m.amid o).call rules c self arguments place =
      (m.call rules c self arguments place).amid o := by
  unfold call at h ⊢
  split
  · rfl
  · rename_i enough
    rw [if_neg enough, onHeap_eq] at h
    rw [onHeap_eq, onHeap_eq, heap_amid]
    cases converted : arguments.mapM Value.convert m.heap with
    | error e k => rfl
    | ok values k =>
      rw [converted] at h
      let n : Machine := { m with heap := k }
      cases c with
      | closure c => exact enter_amid (m := n) c self _ place ⟨h.inside, h.raised, h.accepted⟩
      | native f =>
        dsimp only
        split
        · exact callBuiltin_amid (m := n) h.inside _ _ place
        · exact callHost_amid n _ _ _ place

lemma apply_amid (callee arguments place) (h : o.Admits m (m.apply rules callee arguments place)) :
    (m.amid o).apply rules callee arguments place =
      (m.apply rules callee arguments place).amid o := by
  unfold apply at h ⊢
  split
  · exact call_amid _ _ arguments place h
  · dsimp only at h
    split
    · rfl
    · rename_i kind
      rw [kind] at h
      dsimp only at h
      split
      · rename_i r callable
        rw [callable] at h
        exact call_amid _ _ arguments place h
      · rfl

lemma evalArguments_amid (m : Machine) (callee before rest frame place) :
    (m.amid o).evalArguments callee before rest frame place =
      (m.evalArguments callee before rest frame place).amid o := by
  cases rest <;> rfl

/-! ### Variables, assignments and records -/

lemma withCell_amid (slot frame place) {next next' : Cell → Machine}
    (hn : ∀ c, next' c = (next c).amid o) :
    (m.amid o).withCell slot frame place next' =
      (m.withCell slot frame place next).amid o := by
  unfold withCell
  rw [show (m.amid o).cell? slot frame = m.cell? slot frame from rfl]
  split
  · exact hn _
  · rfl

lemma storeVariable_amid (m : Machine) (c v place) :
    (m.amid o).storeVariable c v place = (m.storeVariable c v place).amid o :=
  onHeap_amid _ place fun _ _ => rfl

lemma storeIndex_amid (m : Machine) (container index v place) :
    (m.amid o).storeIndex container index v place =
      (m.storeIndex container index v place).amid o :=
  onHeap_amid _ place fun _ _ => rfl

lemma storeField_amid (m : Machine) (container key v place) :
    (m.amid o).storeField container key v place =
      (m.storeField container key v place).amid o :=
  onHeap_amid _ place fun _ _ => rfl

lemma update_amid (u frame place) (current : Heap → Except Fault Value)
    (pending : Option (BinaryOp × Value) → Pending) {store : Machine → Value → Machine}
    (hs : ∀ v, store (m.amid o) v = (store m v).amid o) :
    (m.amid o).update u frame place current pending store =
      (m.update u frame place current pending store).amid o := by
  unfold update
  rw [heap_amid]
  cases u with
  | set e => rfl
  | combine op e => cases current m.heap <;> rfl
  | step op =>
    cases current m.heap with
    | error f => rfl
    | ok old =>
      cases stepped : m.heap.unary op old with
      | error f => simp only [stepped]; rfl
      | ok v =>
        simp only [stepped]
        exact hs v

section

variable (m : Machine)

lemma evalFields_amid (record rest frame place) :
    (m.amid o).evalFields record rest frame place =
      (m.evalFields record rest frame place).amid o := by
  cases rest <;> rfl

/-! ### Steps -/

lemma stepEval_amid (e frame) :
    (m.amid o).stepEval rules e frame = (m.stepEval rules e frame).amid o := by
  unfold stepEval
  cases e with
  | read slot place => exact withCell_amid slot frame place fun _ => rfl
  | array items place =>
    cases items with
    | nil => exact giveArray_amid m _
    | cons item rest => rfl
  | record fields self place =>
    refine onHeap_amid _ none fun record h => ?_
    exact evalFields_amid (newFrame { m with heap := h } _).2 record fields _ place
  | function name params body exit self place => exact onHeap_amid _ none fun _ _ => rfl
  | assignVariable slot u place =>
    refine withCell_amid slot frame place fun c => ?_
    exact update_amid u frame place _ _ fun v => storeVariable_amid m c v place
  | native name f arguments place =>
    rw [show (m.amid o).current = m.current from rfl, relinks_amid]
    exact evalArguments_amid m _ _ _ _ _
  | _ => rfl

lemma stepExec_amid (s frame) : (m.amid o).stepExec s frame = (m.stepExec s frame).amid o := by
  unfold stepExec
  cases s with
  | block b =>
    dsimp only
    split
    · exact runStatements_amid m _ _ _
    · exact runStatements_amid (m.newFrame (.fresh frame b.slots)).2 _ _ _
  | jump target value place => cases value <;> rfl
  | _ => rfl

lemma nextRound_amid (condition body step exit next frame) :
    (m.amid o).nextRound condition body step exit next frame =
      (m.nextRound condition body step exit next frame).amid o := by
  cases step <;> rfl

lemma leaveCall_amid (owner caller) :
    (m.amid o).leaveCall owner caller = (m.leaveCall owner caller).amid o :=
  congrArg (fun n : Machine => { n with current := caller })
    (updateInterpreter_amid m owner fun _ _ => rfl)

lemma resume_amid (p v) : (m.amid o).resume rules p v = (m.resume rules p v).amid o := by
  unfold resume
  cases p with
  | box place =>
    dsimp only
    split
    · rfl
    · exact convert_amid m v place
  | arrayItem before rest frame place =>
    refine onHeap_amid _ place fun u h => ?_
    cases rest with
    | nil => exact giveArray_amid _ _
    | cons e rest => rfl
  | recordField record name rest frame place =>
    exact onHeap_amid _ place fun _ _ => onHeap_amid _ none fun _ _ => evalFields_amid _ _ _ _ _
  | binaryRight | unary | index | field => exact look_amid m _ _
  | logicalLeft op right frame =>
    dsimp only
    split <;> rfl
  | storeVariable c old place =>
    dsimp only
    rw [heap_amid]
    cases updated m.heap old v with
    | ok u => exact storeVariable_amid m c u place
    | error f => rfl
  | storeIndex container key old place | storeField container key old place =>
    dsimp only
    rw [heap_amid]
    cases updated m.heap old v with
    | ok u =>
      first
      | exact storeIndex_amid m container key u place
      | exact storeField_amid m container key u place
    | error f => rfl
  | assignIndex container u frame place =>
    exact update_amid u frame place _ _ fun new => storeIndex_amid m container v new place
  | assignField container u frame place =>
    exact update_amid u frame place _ _ fun new => storeField_amid m container v new place
  | callee | argument => exact evalArguments_amid m _ _ _ _ _
  | declare slot frame place => exact withCell_amid slot frame place fun _ => rfl
  | print place => exact withText_amid v place fun _ => rfl
  | block b rest frame => cases rest <;> rfl
  | branch first second frame =>
    dsimp only
    split
    · rfl
    · cases second <;> rfl
  | loopTest condition body step exit next frame =>
    dsimp only
    split <;> rfl
  | loopBody condition body step exit next frame => exact nextRound_amid m _ _ _ _ _ _
  | call exit owner caller place => exact congrArg (·.give .null) (leaveCall_amid m owner caller)
  | run caller => exact convert_amid (m.leaveRun caller) v none
  | _ => rfl

lemma jumpThrough_amid (p target v) :
    (m.amid o).jumpThrough p target v = (m.jumpThrough p target v).amid o := by
  unfold jumpThrough
  cases p with
  | block b rest frame =>
    dsimp only
    split
    · exact runStatements_amid m _ _ _
    · rfl
  | loopBody condition body step exit next frame =>
    dsimp only
    split
    · rfl
    · split
      · exact nextRound_amid m _ _ _ _ _ _
      · rfl
  | call exit owner caller place =>
    dsimp only
    rw [leaveCall_amid]
    split
    · exact convert_amid (m.leaveCall owner caller) v place
    · rfl
  | _ => rfl

lemma raiseThrough_amid (p e) : (m.amid o).raiseThrough p e = (m.raiseThrough p e).amid o := by
  cases p with
  | call exit owner caller place => exact leaveCall_amid m owner caller
  | _ => rfl

end

/-- **A step is the same amid other surroundings**, unless the machine is at rest and there is more
pending, or it refuses a call and the limit is raised. -/
theorem step_amid (rest : m.outcome? = none ∨ o.below = []) (h : o.Admits m (m.step rules)) :
    (m.amid o).step rules = (m.step rules).amid o := by
  obtain ⟨heap, frames, interpreters, current, collectors, registry, supply, world, control, stack⟩ := m
  -- With nothing pending, the machine is at rest, and there is nothing below.
  have foot {c : Control} (hc : (Machine.mk heap frames interpreters current collectors registry supply
      world c []).outcome?.isSome) (hr : (Machine.mk heap frames interpreters current collectors registry
      supply world c []).outcome? = none ∨ o.below = []) : o.below = [] := by
    rcases hr with none | none
    · rw [none] at hc
      cases hc
    · exact none
  cases control with
  | eval e frame => exact stepEval_amid _ e frame
  | exec s frame => exact stepExec_amid _ s frame
  -- No other step looks at a limit.
  | apply callee arguments place => exact apply_amid callee arguments place h
  | give v =>
    cases stack with
    | nil => simp only [amid, step, foot rfl rest, List.append_nil]
    | cons p stack => exact resume_amid (Machine.mk _ _ _ _ _ _ _ _ _ stack) p v
  | jump target v =>
    cases stack with
    | nil => simp only [amid, step, foot rfl rest, List.append_nil]
    | cons p stack => exact jumpThrough_amid (Machine.mk _ _ _ _ _ _ _ _ _ stack) p target v
  | raise e =>
    cases stack with
    | nil => simp only [amid, step, foot rfl rest, List.append_nil]
    | cons p stack => exact raiseThrough_amid (Machine.mk _ _ _ _ _ _ _ _ _ stack) p e

end Machine

end DynScript

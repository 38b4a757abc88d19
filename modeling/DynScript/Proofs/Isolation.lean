import DynScript.Proofs.Border
import DynScript.Proofs.Demands
import DynScript.Proofs.Skeleton

/-!
# Work beyond a border

A machine that works on a text of its own, with the functions of the standard library, stays beyond the
border that was drawn when it began: it reads and writes only what it has made itself.

Main declarations: `Machine.Apart`, `Machine.apart_step`.
-/

namespace DynScript

open List Machine

/-! ### Parts of a machine -/

section

variable (b : Border)

/-- A frame whose variables and outer frames lie beyond the border. -/
structure Frame.Beyond (f : Frame) : Prop where
  parent : ∀ r ∈ f.parent, b.frames ≤ r
  cells : ∀ c ∈ f.cells, c.2.Beyond b

/-- What is called lies beyond the border. -/
def Callee.Beyond : Callee → Prop
  | .value v => v.Beyond b
  | .native f => f.isStandard

/-- The old value that an assignment combines with lies beyond the border. -/
def OldBeyond (old : Option (BinaryOp × Value)) : Prop :=
  ∀ x ∈ old, x.2.Beyond b

/-- A pending part that works on what lies beyond the border. -/
def Pending.Beyond : Pending → Prop
  | .box _ | .unbox | .unary _ _ | .logicalRight _ _ | .discard | .print _ | .jumpValue _
  | .site _ => True
  | .arrayItem before rest frame _ =>
    (∀ v ∈ before, v.Beyond b) ∧ (∀ e ∈ rest, e.Standard) ∧ b.frames ≤ frame
  | .recordField record _ rest frame _ =>
    b.records ≤ record ∧ (∀ f ∈ rest, f.2.Standard) ∧ b.frames ≤ frame
  | .binaryLeft _ e frame _ | .logicalLeft _ e frame | .indexContainer e frame _
  | .fieldContainer e frame _ => e.Standard ∧ b.frames ≤ frame
  | .binaryRight _ v _ | .index v _ | .field v _ => v.Beyond b
  | .ternary first second frame => first.Standard ∧ second.Standard ∧ b.frames ≤ frame
  | .storeVariable c old _ => b.frames ≤ c.frame ∧ OldBeyond b old
  | .assignIndexContainer e u frame _ | .assignFieldContainer e u frame _ =>
    e.Standard ∧ u.Standard ∧ b.frames ≤ frame
  | .assignIndex v u frame _ | .assignField v u frame _ =>
    v.Beyond b ∧ u.Standard ∧ b.frames ≤ frame
  | .storeIndex c _ old _ | .storeField c _ old _ => c.Beyond b ∧ OldBeyond b old
  | .callee arguments frame _ => (∀ e ∈ arguments, e.Standard) ∧ b.frames ≤ frame
  | .argument f before rest frame _ =>
    f.Beyond b ∧ (∀ v ∈ before, v.Beyond b) ∧ (∀ e ∈ rest, e.Standard) ∧ b.frames ≤ frame
  | .declare _ frame _ => b.frames ≤ frame
  | .block code rest frame => code.Standard ∧ (∀ s ∈ rest, s.Standard) ∧ b.frames ≤ frame
  | .branch first second frame =>
    first.Standard ∧ (∀ s ∈ second, s.Standard) ∧ b.frames ≤ frame
  | .loopTest condition body step _ _ frame | .loopBody condition body step _ _ frame
  | .loopStep condition body step _ _ frame =>
    condition.Standard ∧ body.Standard ∧ (∀ e ∈ step, e.Standard) ∧ b.frames ≤ frame
  | .call _ owner caller _ => b.interpreters ≤ owner ∧ b.interpreters ≤ caller
  | .run caller => b.interpreters ≤ caller

/-- What is done next is done beyond the border. -/
def Control.Beyond : Control → Prop
  | .eval e frame => e.Standard ∧ b.frames ≤ frame
  | .exec s frame => s.Standard ∧ b.frames ≤ frame
  | .give v | .jump _ v => v.Beyond b
  | .apply callee arguments _ => callee.Beyond b ∧ ∀ v ∈ arguments, v.Beyond b
  | .raise _ => True

end

namespace Machine

/-- The border that a machine draws at present. -/
def border (m : Machine) : Border where
  arrays := m.heap.arrays.size
  records := m.heap.records.size
  functions := m.heap.functions.size
  frames := m.frames.size
  interpreters := m.interpreters.size

/-- A machine whose natives and input bring along nothing that scripts share: the functions of the
standard library, and plain input. -/
structure Secluded (m : Machine) : Prop where
  natives : m.registry.Standard
  input : ∀ v, m.world.hooks.waitInput = some v → v.Plain m.heap

/-- A machine whose natives and whose input bring along nothing that lies on this side of the border
around it. -/
structure Screened (m : Machine) : Prop where
  natives : m.registry.Standard
  input : ∀ v, m.world.hooks.waitInput = some v → v.Clear m.border m.heap

lemma Secluded.screened {m : Machine} (h : m.Secluded) : m.Screened :=
  ⟨h.natives, fun v hv => .inr (h.input v hv)⟩

/-- On this side of the border around `old` all is as in `old`, except for collected warnings, and
what is beyond refers to nothing on this side. -/
structure Sealed (m old : Machine) : Prop where
  registry : m.registry = old.registry
  input : m.world.hooks.waitInput = old.world.hooks.waitInput
  heap : m.heap.Sealed old.border old.heap
  frames_size : old.frames.size ≤ m.frames.size
  oldFrames : ∀ r, r < old.frames.size → frameAt m.frames r = frameAt old.frames r
  newFrames : ∀ r, old.frames.size ≤ r → (frameAt m.frames r).Beyond old.border
  interpreters_size : old.interpreters.size ≤ m.interpreters.size
  posts : ∀ r, r < old.interpreters.size → (m.interpreter r).post = (old.interpreter r).post

/-- A machine at work beyond the border around `old`, above what is pending in `foot`. -/
structure Working (m old : Machine) (foot : List Pending) : Prop where
  store : m.Sealed old
  current : old.interpreters.size ≤ m.current
  stack : ∃ above, m.stack = above ++ foot ∧ ∀ p ∈ above, p.Beyond old.border

/-- A machine that is at work beyond the border, and goes on there. -/
structure Apart (m old : Machine) (foot : List Pending) : Prop where
  working : m.Working old foot
  control : m.control.Beyond old.border

variable {rules : Rules} {m old : Machine} {foot : List Pending}

/-! ### The store -/

lemma Sealed.refl (m : Machine) : m.Sealed m where
  registry := rfl
  input := rfl
  heap := by
    refine ⟨le_rfl, le_rfl, le_rfl, fun _ _ => rfl, fun _ _ => rfl,
      fun _ _ => rfl, fun r hr v hv => ?_, fun r hr => ?_, fun r hr => ?_⟩
    · rw [Heap.array, Array.getD_eq_getD_getElem?, Array.getElem?_eq_none hr] at hv
      exact absurd hv (Array.not_mem_empty v)
    · rw [Heap.record, Array.getD_eq_getD_getElem?, Array.getElem?_eq_none hr]
      exact forall_mem_nil _
    · rw [Heap.function, Array.getD_eq_getD_getElem?, Array.getElem?_eq_none hr]
      rfl
  frames_size := le_rfl
  oldFrames _ _ := rfl
  newFrames r hr := by
    rw [frameAt_of_le hr]
    exact ⟨by rintro _ ⟨⟩, forall_mem_nil _⟩
  interpreters_size := le_rfl
  posts _ _ := rfl

namespace Sealed

variable (h : m.Sealed old)

include h

lemma setHeap {k : Heap} (hk : k.Sealed old.border old.heap) :
    ({ m with heap := k } : Machine).Sealed old :=
  { h with heap := hk }

lemma pend (p) : ({ m with stack := p :: m.stack } : Machine).Sealed old :=
  { h with }

lemma newFrame {f : Frame} (hf : f.Beyond old.border) : (m.newFrame f).2.Sealed old :=
  { h with
    frames_size := by
      have := h.frames_size
      simp only [Machine.newFrame, Array.size_push]
      omega
    oldFrames := fun r hr => by
      have before : r ≠ m.frames.size := by have := h.frames_size; omega
      simp only [Machine.newFrame]
      rw [Grows.frameAt_push, if_neg before]
      exact h.oldFrames r hr
    newFrames := fun r hr => by
      simp only [Machine.newFrame]
      rw [Grows.frameAt_push]
      split
      · exact hf
      · exact h.newFrames r hr }

lemma modifyFrame {i} (hi : old.frames.size ≤ i) {g : Frame → Frame}
    (hg : ∀ f : Frame, f.Beyond old.border → (g f).Beyond old.border) :
    ({ m with frames := m.frames.modify i g } : Machine).Sealed old :=
  { h with
    frames_size := by simpa using h.frames_size
    oldFrames := fun r hr => by
      have there : r < m.frames.size := lt_of_lt_of_le hr h.frames_size
      have other : i ≠ r := ne_of_gt (lt_of_lt_of_le hr hi)
      rw [Grows.frameAt_modify _ _ _ _ there, if_neg other]
      exact h.oldFrames r hr
    newFrames := fun r hr => by
      rcases lt_or_ge r m.frames.size with there | absent
      · rw [Grows.frameAt_modify _ _ _ _ there]
        split
        · exact hg _ (h.newFrames r hr)
        · exact h.newFrames r hr
      · rw [frameAt_of_le (by simpa using absent), ← frameAt_of_le absent]
        exact h.newFrames r hr }

lemma updateInterpreter {i} {f : Interpreter → Interpreter}
    (hf : old.interpreters.size ≤ i ∨ ∀ n, (f n).post = n.post) :
    (m.updateInterpreter i f).Sealed old :=
  { h with
    interpreters_size := by simpa [Machine.updateInterpreter] using h.interpreters_size
    posts := fun r hr => by
      rw [← h.posts r hr]
      simp only [Machine.interpreter, Machine.updateInterpreter, Array.getD_eq_getD_getElem?,
        Array.getElem?_modify]
      split
      · rename_i same
        rcases hf with hf | hf
        · omega
        · cases m.interpreters[r]? <;> simp [hf]
      · rfl }

lemma onWorld {f : World → World} (hf : (f m.world).hooks = m.world.hooks) :
    (m.onWorld f).Sealed old :=
  { h with
    input := by
      rw [← h.input]
      exact congrArg Hooks.waitInput hf }

lemma warn (w) : (m.warn w).Sealed old ∧ (m.warn w).stack = m.stack ∧
    (m.warn w).current = m.current := by
  refine warn_induct (P := fun n => n.Sealed old ∧ n.stack = m.stack ∧ n.current = m.current) w
    ⟨h.onWorld rfl, rfl, rfl⟩ ?_
  rintro n r ⟨hn, kept⟩
  exact ⟨hn.updateInterpreter (.inr fun _ => rfl), kept⟩

lemma newInterpreter (limit : Int) (relinks : Bool) :
    (m.newInterpreter limit relinks).2.Sealed old := by
  have framed := h.newFrame (f := {}) ⟨by rintro _ ⟨⟩, forall_mem_nil _⟩
  have size := h.interpreters_size
  refine { framed with interpreters_size := ?_, posts := fun r hr => ?_ }
  · simp only [Machine.newInterpreter, Machine.newFrame, Array.size_push]
    omega
  · rw [← h.posts r hr]
    have other : r ≠ m.interpreters.size := by omega
    simp [Machine.interpreter, Machine.newInterpreter, Machine.newFrame, Array.getD_eq_getD_getElem?,
      Array.getElem?_push, other]

lemma globals_newInterpreter (limit : Int) (relinks : Bool) : old.frames.size ≤
    ((m.newInterpreter limit relinks).2.interpreter (m.newInterpreter limit relinks).1).globals := by
  simpa [Machine.interpreter, Machine.newInterpreter, Machine.newFrame] using h.frames_size

lemma extend {i} (hi : old.frames.size ≤ i) (slots) :
    ({ m with frames := m.frames.modify i fun f => f.extend slots } : Machine).Sealed old := by
  refine h.modifyFrame hi fun f hf => ⟨fun r hr => ?_, fun c hc => ?_⟩
  · exact hf.parent r (Frame.parent_extend f _ ▸ hr)
  · rcases Frame.mem_cells_extend hc with hc | ⟨s, -, rfl⟩
    · exact hf.cells c hc
    · trivial

end Sealed

/-! ### Going on -/

namespace Working

variable (h : m.Working old foot)

include h

lemma go {c : Control} (hc : c.Beyond old.border) : (m.go c).Apart old foot :=
  ⟨⟨{ h.store with }, h.current, h.stack⟩, hc⟩

lemma give {v : Value} (hv : v.Beyond old.border) : (m.give v).Apart old foot :=
  h.go hv

lemma giveNull : (m.give .null).Apart old foot :=
  h.go trivial

lemma giveNothing : (m.give .nothing).Apart old foot :=
  h.go trivial

lemma raise (f place) : (m.raise f place).Apart old foot :=
  h.go trivial

lemma giveDatum {d : Datum} (hd : d.Beyond old.border) : (m.giveDatum d).Apart old foot :=
  h.go hd

lemma within {n : Machine} (hn : n.Sealed old) (hc : n.current = m.current)
    (hs : n.stack = m.stack) : n.Working old foot :=
  ⟨hn, hc ▸ h.current, hs ▸ h.stack⟩

lemma pend {p : Pending} (hp : p.Beyond old.border) :
    ({ m with stack := p :: m.stack } : Machine).Working old foot := by
  obtain ⟨above, hs, ha⟩ := h.stack
  exact ⟨h.store.pend p, h.current, p :: above, congrArg _ hs, forall_mem_cons.2 ⟨hp, ha⟩⟩

lemma eval {e : Expr} (he : e.Standard) {frame} (hf : old.frames.size ≤ frame) {p : Pending}
    (hp : p.Beyond old.border) : (m.eval e frame p).Apart old foot :=
  (h.pend hp).go (c := .eval e frame) ⟨he, hf⟩

lemma exec {s : Stmt} (hs : s.Standard) {frame} (hf : old.frames.size ≤ frame) {p : Pending}
    (hp : p.Beyond old.border) : (m.exec s frame p).Apart old foot :=
  (h.pend hp).go (c := .exec s frame) ⟨hs, hf⟩

lemma look {f : Heap → Except Fault Value} (place)
    (hf : ∀ v, f m.heap = .ok v → v.Beyond old.border) : (m.look f place).Apart old foot := by
  unfold Machine.look
  split
  · exact h.give (hf _ ‹_›)
  · exact h.raise _ _

lemma onHeap {α : Type} {f : HeapM α} {Q : α → Prop} (hf : f.Seals old.border old.heap Q) (place)
    {next : Machine → α → Machine}
    (hn : ∀ n : Machine, n.Working old foot → ∀ a, Q a → (next n a).Apart old foot) :
    (m.onHeap f place next).Apart old foot := by
  obtain ⟨left, result⟩ := hf m.heap h.store.heap
  rw [onHeap_eq]
  cases hr : f m.heap with
  | ok a k =>
    rw [hr] at left
    exact hn _ (h.within (h.store.setHeap left) rfl rfl) a (result a k hr)
  | error e k =>
    rw [hr] at left
    exact (h.within (h.store.setHeap left) rfl rfl).raise e place

lemma convert {v : Value} (hv : v.Clear old.border old.heap) (place) :
    (m.onHeap v.convert place fun m v => m.give v).Apart old foot :=
  h.onHeap (seals_convert hv) place fun _ hn _ hu => hn.give hu

lemma giveArray {items} (hi : ∀ v ∈ items, v.Beyond old.border) :
    (m.giveArray items).Apart old foot :=
  h.onHeap (.makeArray hi) none fun _ hn _ hr => hn.giveDatum hr

lemma withText (v place) {next : Machine → String → Machine} (hn : ∀ s, (next m s).Apart old foot) :
    (m.withText v place next).Apart old foot := by
  unfold Machine.withText
  split
  · exact hn _
  · exact h.raise _ _

lemma onWorld {f : World → World} (hf : (f m.world).hooks = m.world.hooks) :
    (m.onWorld f).Working old foot :=
  h.within (h.store.onWorld hf) rfl rfl

lemma warn (w) : (m.warn w).Working old foot := by
  obtain ⟨store, stack, current⟩ := h.store.warn w
  exact h.within store current stack

end Working

/-! ### Variables -/

lemma Sealed.cellWithin (h : m.Sealed old) {id : Nat} (depth : Nat) :
    ∀ {r : Ref}, old.frames.size ≤ r → ∀ c ∈ cellWithin m.frames id depth r,
      old.frames.size ≤ c.frame := by
  induction depth with
  | zero =>
    intro r _ c hc
    cases hc
  | succ depth ih =>
    intro r hr c hc
    rw [Seen.cellWithin_succ] at hc
    split at hc
    · cases hc
      exact hr
    · obtain ⟨p, hp, hc⟩ := Option.bind_eq_some_iff.1 hc
      exact ih ((h.newFrames r hr).parent p hp) c hc

lemma Sealed.load (h : m.Sealed old) {c : Cell} (hc : old.frames.size ≤ c.frame) :
    (m.load c).Beyond old.border := by
  unfold Machine.load
  cases found : (m.frames.getD c.frame {}).get? c.id with
  | none => trivial
  | some v => exact (h.newFrames c.frame hc).cells _ (mem_of_lookup found)

namespace Working

variable (h : m.Working old foot)

include h

lemma withCell {slot frame} (hf : old.frames.size ≤ frame) (place) {next : Cell → Machine}
    (hn : ∀ c, old.frames.size ≤ c.frame → (next c).Apart old foot) :
    (m.withCell slot frame place next).Apart old foot := by
  unfold Machine.withCell
  split
  · exact hn _ (h.store.cellWithin _ hf _ ‹_›)
  · exact h.raise _ _

lemma assign {c : Cell} (hc : old.frames.size ≤ c.frame) {v : Value}
    (hv : v.Beyond old.border) : (m.store c v).Working old foot := by
  refine h.within (h.store.modifyFrame hc fun f hf => ⟨hf.parent, ?_⟩) rfl rfl
  intro x hx
  rcases Frame.mem_cells_set hx with hx | ⟨rfl, -⟩
  · exact hf.cells x hx
  · exact hv

lemma storeVariable {c : Cell} (hc : old.frames.size ≤ c.frame) {v : Value}
    (hv : v.Beyond old.border) (place) : (m.storeVariable c v place).Apart old foot :=
  h.onHeap (seals_convert (.inl hv)) _ fun _ hn _ hu => (hn.assign hc hu).give hu

lemma newFrame {f : Frame} (hf : f.Beyond old.border) : (m.newFrame f).2.Working old foot :=
  h.within (h.store.newFrame hf) rfl rfl

lemma warnNull (w) : ((m.warn w).give .null).Apart old foot :=
  (h.warn w).giveNull

/-! ### Runs -/

lemma runStatements {b : Block} (hb : b.Standard) {rest} (hr : ∀ s ∈ rest, s.Standard) {frame}
    (hf : old.frames.size ≤ frame) : (m.runStatements b rest frame).Apart old foot := by
  cases rest with
  | nil => exact h.give trivial
  | cons s rest =>
    obtain ⟨hs, hr⟩ := forall_mem_cons.1 hr
    exact h.exec hs hf ⟨hb, hr, hf⟩

end Working

lemma Sealed.startRun (h : m.Sealed old) {i} (hi : old.interpreters.size ≤ i)
    (hg : old.frames.size ≤ (m.interpreter i).globals) {p : Program} (hp : p.body.Standard) :
    (m.startRun i p).Apart old (.run m.current :: m.stack) := by
  have ready : ({ m with
      frames := m.frames.modify (m.interpreter i).globals fun f => f.extend p.body.slots
      collectors := i :: m.collectors
      stack := .run m.current :: m.stack
      current := i } : Machine).Working old (.run m.current :: m.stack) :=
    ⟨{ h.extend hg p.body.slots with }, hi, [], rfl, forall_mem_nil _⟩
  exact ready.runStatements hp hp.statements hg

lemma Apart.lower {n : Machine} {p} (h : n.Apart old (p :: m.stack)) (hm : m.Working old foot)
    (hp : p.Beyond old.border) : n.Apart old foot := by
  obtain ⟨above, hs, ha⟩ := h.working.stack
  obtain ⟨below, ht, hb⟩ := hm.stack
  refine ⟨⟨h.working.store, h.working.current, above ++ p :: below, ?_, ?_⟩, h.control⟩
  · simp [hs, ht]
  · simp only [mem_append, mem_cons]
    rintro q (hq | rfl | hq)
    · exact ha q hq
    · exact hp
    · exact hb q hq

namespace Working

variable (h : m.Working old foot)

include h

lemma startRun {i} (hi : old.interpreters.size ≤ i)
    (hg : old.frames.size ≤ (m.interpreter i).globals) {p : Program} (hp : p.body.Standard) :
    (m.startRun i p).Apart old foot :=
  (h.store.startRun hi hg hp).lower h h.current

lemma evaluateText (ho : old.Screened) (code place) :
    (m.evaluateText code place).Apart old foot := by
  unfold Machine.evaluateText
  split
  · exact h.warnNull _
  · rename_i source _
    have told : (m.compile source evalOptions []).2.Working old foot :=
      h.within { h.store with } rfl rfl
    dsimp only
    split
    · exact told.warnNull _
    · rename_i u hu
      split
      · have natives : m.registry.Standard := h.store.registry ▸ ho.natives
        have made := told.within (told.store.newInterpreter defaultLimit true) rfl rfl
        exact (made.pend (p := .site place) trivial).startRun h.store.interpreters_size
          (told.store.globals_newInterpreter _ _) (standard_of_compile natives hu)
      · exact told.warnNull _

variable {p : Pending} {arguments : List Value} {frame : Ref} {v : Value}

omit h in
lemma concludes (ho : old.Screened) {place} {n} (hc : Concludes arguments place m n)
    (h : m.Working old foot) (ha : ∀ v ∈ arguments, v.Beyond old.border) : n.Apart old foot := by
  induction hc with
  | datum m hd => exact h.giveDatum (Datum.beyond_of_isScalar hd)
  | array m hi =>
    refine h.giveArray fun v hv => ?_
    cases hi v hv with
    | argument hv => exact ha v hv
    | item hm hr hv => exact h.store.heap.newArrays _ ((ha _ hm).datum hr) v hv
    | text s => trivial
  | input m hv => exact h.convert (ho.input _ (h.store.input ▸ hv)) _
  | raise m => exact h.raise _ _
  | warn w _ ih => exact ih (h.warn w)
  | @world m n w _ hh _ ih => exact ih (h.onWorld (f := fun _ => w) hh)

lemma callBuiltin (ho : old.Screened) (x) (ha : ∀ v ∈ arguments, v.Beyond old.border) (place) :
    (m.callBuiltin x arguments place).Apart old foot := by
  by_cases hx : x = .evaluate
  · subst hx
    exact h.evaluateText ho _ place
  · exact concludes ho (concludes_callBuiltin m hx arguments place) h
      (forall_mem_cons.2 ⟨trivial, ha⟩)

/-! ### Calls -/

lemma enter {c} (hc : (Callable.closure c).Beyond old.border) {self : Value}
    (hs : self.Beyond old.border) (ha : ∀ v ∈ arguments, v.Beyond old.border) (place) :
    (m.enter c self arguments place).Apart old foot := by
  obtain ⟨frame, owner, body⟩ := hc
  unfold Machine.enter
  dsimp only
  split
  · exact h.raise _ _
  · have cells : ∀ x ∈ ((c.code.params.zip arguments).map fun p => (p.1.id, p.2)) ++
        c.code.self.toList.map fun slot => (slot.id, self), x.2.Beyond old.border := by
      intro x hx
      rcases mem_append.1 hx with hx | hx
      · obtain ⟨p, hm, rfl⟩ := mem_map.1 hx
        exact ha p.2 (of_mem_zip hm).2
      · obtain ⟨slot, -, rfl⟩ := mem_map.1 hx
        exact hs
    have parent : ∀ r ∈ some c.frame, old.border.frames ≤ r := by
      rintro _ ⟨⟩
      exact frame
    have framed := h.newFrame (f := { parent := c.frame, cells := _ }) ⟨parent, cells⟩
    have pending := (framed.within (framed.store.updateInterpreter (i := c.owner)
      (f := fun i => { i with depth := i.depth + 1 }) (.inl owner)) rfl rfl).pend
        (p := .call c.code.exit c.owner m.current place) ⟨owner, h.current⟩
    refine ⟨⟨{ pending.store with }, owner, pending.stack⟩, ?_, h.store.frames_size⟩
    exact congrArg Stmt.block body

lemma call (ho : old.Screened) {c : Callable} (hc : c.Beyond old.border) {self : Value}
    (hs : self.Beyond old.border) (ha : ∀ v ∈ arguments, v.Beyond old.border) (place) :
    (m.call rules c self arguments place).Apart old foot := by
  unfold Machine.call
  split
  · exact h.raise _ _
  · refine h.onHeap (seals_convert_all ha) _ fun n hn l hl => ?_
    have accepted : ∀ v ∈ c.accepted l, v.Beyond old.border :=
      fun v hv => hl v (Callable.mem_of_mem_accepted hv)
    cases c with
    | closure c => exact hn.enter hc hs accepted place
    | native f =>
      dsimp only
      split
      · exact hn.callBuiltin ho _ accepted place
      · -- A function of the application is not standard.
        rename_i hb
        simp [Callable.Beyond, NativeFunction.isStandard, hb] at hc

lemma apply (ho : old.Screened) {callee : Callee} (hc : callee.Beyond old.border)
    (ha : ∀ v ∈ arguments, v.Beyond old.border) (place) :
    (m.apply rules callee arguments place).Apart old foot := by
  unfold Machine.apply
  split
  · exact h.call ho (c := .native _) hc Value.beyond_null ha place
  · split
    · exact h.raise _ _
    · split
      · rename_i r hd
        have beyond := Value.Beyond.datum hc hd
        have self : (Value.boxed (.callable r)).Beyond old.border := beyond
        exact h.call ho (h.store.heap.newFunctions r beyond) self ha place
      · exact h.raise _ _

lemma evalArguments {callee : Callee} (hc : callee.Beyond old.border) {before}
    (hb : ∀ v ∈ before, v.Beyond old.border) {rest} (hr : ∀ e ∈ rest, e.Standard)
    (hf : old.frames.size ≤ frame) (place) :
    (m.evalArguments callee before rest frame place).Apart old foot := by
  cases rest with
  | nil => exact h.go ⟨hc, fun v hv => hb v (mem_reverse.1 hv)⟩
  | cons e rest =>
    obtain ⟨he, hr⟩ := forall_mem_cons.1 hr
    exact h.eval he hf ⟨hc, hb, hr, hf⟩

/-! ### Assignments -/

lemma update {u : Update} (hu : u.Standard) (hf : old.frames.size ≤ frame) (place)
    {current : Heap → Except Fault Value} (hc : ∀ v, current m.heap = .ok v → v.Beyond old.border)
    {pending : Option (BinaryOp × Value) → Pending}
    (hp : ∀ x, OldBeyond old.border x → (pending x).Beyond old.border)
    {store : Machine → Value → Machine}
    (hs : ∀ v : Value, v.Beyond old.border → (store m v).Apart old foot) :
    (m.update u frame place current pending store).Apart old foot := by
  unfold Machine.update
  cases u with
  | set e => exact h.eval (Update.set.inj hu) hf (hp _ (by rintro _ ⟨⟩))
  | combine op e =>
    dsimp only
    split
    · rename_i v hv
      refine h.eval (Update.combine.inj hu).2 hf (hp _ ?_)
      rintro _ ⟨⟩
      exact hc v hv
    · exact h.raise _ _
  | step op =>
    dsimp only
    split
    · split
      · exact hs _ (beyond_unary ‹_›)
      · exact h.raise _ _
    · exact h.raise _ _

lemma storeIndex {c i : Value} (hc : c.Beyond old.border) (hv : v.Beyond old.border) (place) :
    (m.storeIndex c i v place).Apart old foot :=
  h.onHeap (seals_setIndex hc hv) _ fun _ hn _ hu => hn.give hu

lemma storeField {c i : Value} (hc : c.Beyond old.border) (hv : v.Beyond old.border) (place) :
    (m.storeField c i v place).Apart old foot :=
  h.onHeap (seals_setField hc hv) _ fun _ hn _ hu => hn.give hu

omit h in
lemma beyond_updated {k x} {u} (hv : v.Beyond old.border) (hu : updated k x v = .ok u) :
    u.Beyond old.border := by
  unfold updated at hu
  split at hu
  · cases hu
    exact hv
  · exact beyond_binary hu

/-! ### Expressions and statements -/

lemma evalFields {record} (hr : old.heap.records.size ≤ record) {rest}
    (hl : ∀ f ∈ rest, f.2.Standard) (hf : old.frames.size ≤ frame) (place) :
    (m.evalFields record rest frame place).Apart old foot := by
  cases rest with
  | nil => exact h.giveDatum hr
  | cons f rest =>
    obtain ⟨he, hl⟩ := forall_mem_cons.1 hl
    exact h.eval he hf ⟨hr, hl, hf⟩

/-- **Starting to evaluate** an expression. -/
theorem stepEval (ho : old.Screened) {e : Expr} (he : e.Standard)
    (hf : old.frames.size ≤ frame) : (m.stepEval rules e frame).Apart old foot := by
  have parent : ∀ r ∈ some frame, old.border.frames ≤ r := by
    rintro _ ⟨⟩
    exact hf
  cases e with
  | literal value place =>
    exact h.give (Value.beyond_wrap _ (by cases value <;> trivial))
  | read slot place => exact h.withCell hf place fun c hc => h.give (h.store.load hc)
  | box inner => exact h.eval (Expr.box.inj he) hf trivial
  | unbox inner => exact h.eval (Expr.unbox.inj he) hf trivial
  | array items place =>
    have items_ := recodeAll_standard.1 (Expr.array.inj he).1
    cases items with
    | nil => exact h.giveArray fun v hv => absurd hv (Array.not_mem_empty v)
    | cons item rest =>
      obtain ⟨hi, hr⟩ := forall_mem_cons.1 items_
      exact h.eval hi hf ⟨forall_mem_nil _, hr, hf⟩
  | record fields self place =>
    have fields_ := recodeFields_standard.1 (Expr.record.inj he).1
    have empty : ({} : Record).Beyond old.border := forall_mem_nil _
    simp only [Machine.stepEval]
    refine h.onHeap (.makeRecord empty) _ fun n hn r hr => ?_
    have framed := hn.newFrame (f := { parent := frame, cells := [(self.id, .boxed (.record r))] })
      ⟨parent, forall_mem_singleton.2 hr⟩
    exact framed.evalFields hr fields_ hn.store.frames_size place
  | function name params body exit self place =>
    have body_ : body.Standard := (Expr.function.inj he).2.2.1
    have closure : (Callable.closure ⟨⟨name, params, body, exit, self⟩, frame, m.current⟩).Beyond
        old.border := ⟨hf, h.current, body_⟩
    exact h.onHeap (.makeFunction closure) none fun n hn r hr => hn.giveDatum (d := .callable r) hr
  | binary op left right place =>
    obtain ⟨-, hl, hr, -⟩ := Expr.binary.inj he
    exact h.eval hl hf ⟨hr, hf⟩
  | logical op left right place =>
    obtain ⟨-, hl, hr, -⟩ := Expr.logical.inj he
    exact h.eval hl hf ⟨hr, hf⟩
  | unary op operand place => exact h.eval (Expr.unary.inj he).2.1 hf trivial
  | ternary c x y place =>
    obtain ⟨hc, hx, hy, -⟩ := Expr.ternary.inj he
    exact h.eval hc hf ⟨hx, hy, hf⟩
  | assignVariable slot u place =>
    obtain ⟨-, hu, -⟩ := Expr.assignVariable.inj he
    refine h.withCell hf place fun c hc => ?_
    have waits (x : Option (BinaryOp × Value)) (hx : OldBeyond old.border x) :
        (Pending.storeVariable c x place).Beyond old.border := ⟨hc, hx⟩
    refine h.update hu hf place ?_ waits fun v hv => h.storeVariable hc hv place
    rintro v ⟨⟩
    exact h.store.load hc
  | assignIndex c i u place =>
    obtain ⟨hc, hi, hu, -⟩ := Expr.assignIndex.inj he
    exact h.eval hc hf ⟨hi, hu, hf⟩
  | assignField c i u place =>
    obtain ⟨hc, hi, hu, -⟩ := Expr.assignField.inj he
    exact h.eval hc hf ⟨hi, hu, hf⟩
  | call callee arguments place =>
    obtain ⟨hc, ha, -⟩ := Expr.call.inj he
    exact h.eval hc hf ⟨recodeAll_standard.1 ha, hf⟩
  | native name f arguments place =>
    obtain ⟨-, hn, ha, -⟩ := Expr.native.inj he
    refine h.evalArguments ?_ (forall_mem_nil _) (recodeAll_standard.1 ha) hf place
    have own := isStandard_of_fixed hn
    -- The function may be looked up again, in a registry that is standard too.
    change NativeFunction.isStandard _ = true
    split
    · cases found : m.registry.lookup name with
      | none => exact own
      | some g => exact (h.store.registry ▸ ho.natives : m.registry.Standard).lookup found
    · exact own
  | index c i place =>
    obtain ⟨hc, hi, -⟩ := Expr.index.inj he
    exact h.eval hc hf ⟨hi, hf⟩
  | field c i place =>
    obtain ⟨hc, hi, -⟩ := Expr.field.inj he
    exact h.eval hc hf ⟨hi, hf⟩

/-- **Starting to execute** a statement. -/
theorem stepExec {s : Stmt} (hs : s.Standard) (hf : old.frames.size ≤ frame) :
    (m.stepExec s frame).Apart old foot := by
  cases s with
  | expression e place => exact h.go ⟨(Stmt.expression.inj hs).1, hf⟩
  | declare slot e place => exact h.eval (Stmt.declare.inj hs).2.1 hf hf
  | print e place => exact h.eval (Stmt.print.inj hs).1 hf trivial
  | block b =>
    have hb : b.Standard := Stmt.block.inj hs
    unfold Machine.stepExec
    dsimp only
    split
    · exact h.runStatements hb hb.statements hf
    · have fresh : (Frame.fresh frame b.slots).Beyond old.border := by
        refine ⟨fun r hr => ?_, fun c hc => ?_⟩
        · rw [Frame.fresh, Frame.parent_extend] at hr
          cases hr
          exact hf
        · rcases Frame.mem_cells_extend hc with hc | ⟨s, -, rfl⟩
          · cases hc
          · trivial
      exact (h.newFrame fresh).runStatements hb hb.statements h.store.frames_size
  | branch c x y place =>
    obtain ⟨hc, hx, hy, -⟩ := Stmt.branch.inj hs
    exact h.eval hc hf ⟨hx, recodeBranch_standard.1 hy, hf⟩
  | loop c x y exit next place =>
    obtain ⟨hc, hx, hy, -⟩ := Stmt.loop.inj hs
    exact h.eval hc hf ⟨hc, hx, recodeOption_standard.1 hy, hf⟩
  | jump target v place =>
    obtain ⟨-, hv, -⟩ := Stmt.jump.inj hs
    cases v with
    | none => exact h.go trivial
    | some e => exact h.eval (Option.some.inj hv) hf trivial
  | label target place => exact h.giveNothing

/-! ### Values, jumps and errors -/

lemma nextRound {c : Expr} (hc : c.Standard) {x : Stmt} (hx : x.Standard) {y}
    (hy : ∀ e ∈ y, e.Standard) (exit next) (hf : old.frames.size ≤ frame) :
    (m.nextRound c x y exit next frame).Apart old foot := by
  cases y with
  | none => exact h.eval hc hf ⟨hc, hx, hy, hf⟩
  | some e => exact h.eval (hy e rfl) hf ⟨hc, hx, hy, hf⟩

lemma giveTruth (b : Bool) : (m.giveTruth rules b).Apart old foot :=
  h.give (Value.beyond_wrap _ trivial)

lemma leaveCall {owner caller} (ho : old.interpreters.size ≤ owner)
    (hc : old.interpreters.size ≤ caller) : (m.leaveCall owner caller).Working old foot := by
  have left := h.store.updateInterpreter (f := fun i => { i with depth := i.depth - 1 }) (.inl ho)
  exact ⟨{ left with }, hc, h.stack⟩

lemma leaveRun {caller} (hc : old.interpreters.size ≤ caller) :
    (m.leaveRun caller).Working old foot :=
  ⟨{ h.store with }, hc, h.stack⟩

/-- **Handing a value** to what waits for it. -/
theorem resume (hp : p.Beyond old.border) (hv : v.Beyond old.border) :
    (m.resume rules p v).Apart old foot := by
  cases p with
  | box place =>
    simp only [resume]
    split
    · exact h.give hv
    · exact h.convert (.inl hv) _
  | unbox =>
    simp only [resume]
    split
    · exact h.give hv
    · exact h.give hv.unbox
  | arrayItem before rest frame place =>
    obtain ⟨hb, hr, hf⟩ := hp
    simp only [resume]
    refine h.onHeap (seals_convert (.inl hv)) _ fun n hn u hu => ?_
    have items : ∀ x ∈ u :: before, x.Beyond old.border := forall_mem_cons.2 ⟨hu, hb⟩
    cases rest with
    | nil => exact hn.giveArray fun x hx => items x (by simpa [or_comm] using hx)
    | cons e rest =>
      obtain ⟨he, hr⟩ := forall_mem_cons.1 hr
      exact hn.eval he hf ⟨items, hr, hf⟩
  | recordField record name rest frame place =>
    obtain ⟨hr, hl, hf⟩ := hp
    simp only [resume]
    refine h.onHeap (seals_convert (.inl hv)) _ fun n hn u hu => ?_
    exact hn.onHeap (.modifying fun k hk => hk.setField hr name hu) _ fun n hn _ _ =>
      hn.evalFields hr hl hf place
  | binaryLeft op right frame place => exact h.eval hp.1 hp.2 hv
  | binaryRight op left place =>
    simp only [resume]
    exact h.look place fun u hu => beyond_binary hu
  | logicalLeft op right frame =>
    simp only [resume]
    split
    · exact h.giveTruth _
    · exact h.giveTruth _
    · exact h.eval hp.1 hp.2 trivial
  | logicalRight op left => exact h.giveTruth _
  | unary op place =>
    simp only [resume]
    exact h.look place fun u hu => beyond_unary hu
  | ternary first second frame =>
    obtain ⟨hx, hy, hf⟩ := hp
    refine h.go ⟨?_, hf⟩
    split
    · exact hx
    · exact hy
  | storeVariable c x place =>
    simp only [resume]
    split
    · exact h.storeVariable hp.1 (beyond_updated hv ‹_›) place
    · exact h.raise _ _
  | assignIndexContainer key u frame place | assignFieldContainer key u frame place =>
    obtain ⟨hi, hu, hf⟩ := hp
    exact h.eval hi hf ⟨hv, hu, hf⟩
  | assignIndex container u frame place =>
    obtain ⟨hc, hu, hf⟩ := hp
    have waits (x : Option (BinaryOp × Value)) (hx : OldBeyond old.border x) :
        (Pending.storeIndex container v x place).Beyond old.border := ⟨hc, hx⟩
    simp only [resume]
    exact h.update hu hf place (fun _ hu => beyond_getIndex h.store.heap hc hu) waits
      fun w hw => h.storeIndex hc hw place
  | assignField container u frame place =>
    obtain ⟨hc, hu, hf⟩ := hp
    have waits (x : Option (BinaryOp × Value)) (hx : OldBeyond old.border x) :
        (Pending.storeField container v x place).Beyond old.border := ⟨hc, hx⟩
    simp only [resume]
    exact h.update hu hf place (fun _ hu => beyond_getField h.store.heap hc hu) waits
      fun w hw => h.storeField hc hw place
  | storeIndex container key x place | storeField container key x place =>
    simp only [resume]
    split
    · first
      | exact h.storeIndex hp.1 (beyond_updated hv ‹_›) place
      | exact h.storeField hp.1 (beyond_updated hv ‹_›) place
    · exact h.raise _ _
  | callee arguments frame place =>
    have callee : (Callee.value v).Beyond old.border := hv
    exact h.evalArguments callee (forall_mem_nil _) hp.1 hp.2 place
  | argument callee before rest frame place =>
    obtain ⟨hc, hb, hr, hf⟩ := hp
    exact h.evalArguments hc (forall_mem_cons.2 ⟨hv, hb⟩) hr hf place
  | indexContainer index frame place => exact h.eval hp.1 hp.2 hv
  | index container place =>
    simp only [resume]
    exact h.look place fun u hu => beyond_getIndex h.store.heap hp hu
  | fieldContainer key frame place => exact h.eval hp.1 hp.2 hv
  | field container place =>
    simp only [resume]
    exact h.look place fun u hu => beyond_getField h.store.heap hp hu
  | declare slot frame place =>
    exact h.withCell hp place fun c hc => (h.assign hc hv).giveNothing
  | print place =>
    simp only [resume]
    exact h.withText _ _ fun s => giveNothing (h.onWorld rfl)
  | block b rest frame =>
    obtain ⟨hb, hr, hf⟩ := hp
    cases rest with
    | nil => exact h.give hv
    | cons s rest =>
      obtain ⟨hs, hr⟩ := forall_mem_cons.1 hr
      exact h.exec hs hf ⟨hb, hr, hf⟩
  | branch first second frame =>
    obtain ⟨hx, hy, hf⟩ := hp
    simp only [resume]
    split
    · exact h.exec hx hf trivial
    · cases second with
      | none => exact h.giveNothing
      | some s => exact h.exec (hy s rfl) hf trivial
  | discard => exact h.giveNothing
  | loopTest c x y exit next frame =>
    simp only [resume]
    split
    · exact h.exec hp.2.1 hp.2.2.2 hp
    · exact h.giveNothing
  | loopBody c x y exit next frame =>
    obtain ⟨hc, hx, hy, hf⟩ := hp
    exact h.nextRound hc hx hy exit next hf
  | loopStep c x y exit next frame => exact h.eval hp.1 hp.2.2.2 hp
  | jumpValue target => exact h.go hv
  | call exit owner caller place => exact (h.leaveCall hp.1 hp.2).giveNull
  | run caller => exact (h.leaveRun hp).convert (.inl hv) _
  | site place => exact h.give hv

/-- **Passing a jump by** what is pending. -/
theorem jumpThrough (hp : p.Beyond old.border) {target} (hc : m.control = .jump target v)
    (hv : v.Beyond old.border) : (m.jumpThrough p target v).Apart old foot := by
  have by_ : m.Apart old foot := ⟨h, hc ▸ hv⟩
  cases p with
  | block b rest frame =>
    obtain ⟨hb, -, hf⟩ := hp
    simp only [jumpThrough]
    split
    · rename_i found
      exact h.runStatements hb (fun s hs => hb.statements s (Block.subset_of_afterLabel found s hs)) hf
    · exact by_
  | loopBody c x y exit next frame =>
    obtain ⟨hc, hx, hy, hf⟩ := hp
    simp only [jumpThrough]
    split
    · exact h.giveNothing
    · split
      · exact h.nextRound hc hx hy exit next hf
      · exact by_
  | call exit owner caller place =>
    have left := h.leaveCall hp.1 hp.2
    simp only [jumpThrough]
    split
    · exact left.convert (.inl hv) _
    · exact ⟨left, by_.control⟩
  | run caller => exact (h.leaveRun hp).raise _ _
  | _ => exact by_

/-- **Passing an error by** what is pending. -/
theorem raiseThrough (hp : p.Beyond old.border) {e} (hc : m.control = .raise e) :
    (m.raiseThrough p e).Apart old foot := by
  have by_ : m.Apart old foot := ⟨h, hc ▸ trivial⟩
  cases p with
  | call exit owner caller place => exact ⟨h.leaveCall hp.1 hp.2, by_.control⟩
  | run caller => exact ⟨h.leaveRun hp, by_.control⟩
  | site place => exact h.go trivial
  | _ => exact by_

lemma pop (hn : m.stack ≠ foot) {stack} (hs : m.stack = p :: stack) :
    p.Beyond old.border ∧ ({ m with stack := stack } : Machine).Working old foot := by
  obtain ⟨above, ha, hb⟩ := h.stack
  cases above with
  | nil => exact absurd ha hn
  | cons q above =>
    obtain ⟨rfl, rfl⟩ := List.cons.inj (hs.symm.trans ha)
    obtain ⟨hp, hb⟩ := forall_mem_cons.1 hb
    exact ⟨hp, { h.store with }, h.current, above, rfl, hb⟩

end Working

/-- **A machine at work beyond the border stays there with each step**, until it takes up what was
pending before. -/
theorem apart_step (ho : old.Screened) (h : m.Apart old foot)
    (hn : ¬ (m.stack = foot ∧ TakesUp m.control)) : (m.step rules).Apart old foot := by
  obtain ⟨working, control⟩ := h
  have pops (ht : TakesUp m.control) : m.stack ≠ foot := fun hs => hn ⟨hs, ht⟩
  unfold step
  split
  · rename_i hc
    rw [hc] at control
    exact working.stepEval ho control.1 control.2
  · rename_i hc
    rw [hc] at control
    exact working.stepExec control.1 control.2
  · rename_i hc
    rw [hc] at control
    exact working.apply ho control.1 control.2 _
  -- What is pending is taken up.
  all_goals
    rename_i hc
    split
    · exact ⟨working, control⟩
    obtain ⟨hp, popped⟩ := working.pop (pops (hc ▸ trivial)) ‹_›
    rw [hc] at control
  · exact popped.resume hp control
  · exact popped.jumpThrough hp hc control
  · exact popped.raiseThrough hp hc

end Machine

end DynScript

import DynScript.Proofs.Frames
import DynScript.Proofs.HeapLikeness

/-!
# Like machines

Two machines are alike when they are about to do the same thing with like code and like values, in like
heaps and frames and in the same world.

Main declarations: `Machine.Akin`, `Machine.Like`.
-/

namespace DynScript

open List

section

variable (w : Likeness) (l : Prop) (A : Container → Prop)

/-! ### Frames -/

/-- Like frames: like variables in the same order, the second frame having those in `spare` too. -/
structure Frame.Like (spare : List (Nat × Value)) (f f' : Frame) : Prop where
  parent : f.parent = f'.parent
  cells : ∃ own, f'.cells = own ++ spare ∧
    Forall₂ (fun c c' => w.slots c.1 c'.1 ∧ c.2.Held l A c'.2) f.cells own

/-! ### Pending parts -/

/-- Like functions to be called. -/
inductive Callee.Like : Callee → Callee → Prop where
  | value {v v' : Value} (h : v.Passed l A v') : Callee.Like (.value v) (.value v')
  | native {f : NativeFunction} (h : f.Allowed w) : Callee.Like (.native f) (.native f)

/-- Like operators and old values of assignments. -/
def LikeOld : Option (BinaryOp × Value) → Option (BinaryOp × Value) → Prop :=
  Option.Rel fun o o' => o.1 = o'.1 ∧ o.2.Held l A o'.2

/-- Like variables of the same frame. -/
structure Cell.Like (c c' : Cell) : Prop where
  frame : c.frame = c'.frame
  id : w.slots c.id c'.id

/-- Like pending parts inside of a call or a run. -/
inductive Pending.Like : Pending → Pending → Prop where
  | box {p p'} (hp : w.places p p') : Pending.Like (.box p) (.box p')
  | unbox : Pending.Like .unbox .unbox
  | arrayItem {before before' rest rest'} (frame : Ref) {p p'}
    (hb : Forall₂ (Value.Boxed l A) before before')
    (hr : Forall₂ (Expr.Like w) rest rest') (hp : w.places p p') : Pending.Like
    (.arrayItem before rest frame p) (.arrayItem before' rest' frame p')
  | recordField {record} (name : String) {rest rest'} (frame : Ref) {p p'} (hc : A (.record record))
    (hr : Forall₂ (Expr.LikeField w) rest rest') (hp : w.places p p') : Pending.Like
    (.recordField record name rest frame p) (.recordField record name rest' frame p')
  | binaryLeft (op : BinaryOp) {e e'} (frame : Ref) {p p'} (he : e.Like w e') (hp : w.places p p') :
    Pending.Like (.binaryLeft op e frame p) (.binaryLeft op e' frame p')
  | binaryRight (op : BinaryOp) {v v' p p'} (hv : v.Held l A v') (hp : w.places p p') : Pending.Like
    (.binaryRight op v p) (.binaryRight op v' p')
  | logicalLeft (op : LogicalOp) {e e'} (frame : Ref) (he : e.Like w e') : Pending.Like
    (.logicalLeft op e frame) (.logicalLeft op e' frame)
  | logicalRight (op : LogicalOp) (left : Bool) : Pending.Like (.logicalRight op left)
    (.logicalRight op left)
  | unary (op : UnaryOp) {p p'} (hp : w.places p p') : Pending.Like (.unary op p) (.unary op p')
  | ternary {a a' b b'} (frame : Ref) (ha : a.Like w a') (hb : b.Like w b') : Pending.Like
    (.ternary a b frame) (.ternary a' b' frame)
  | storeVariable {c c' old old' p p'} (hc : c.Like w c') (ho : LikeOld l A old old')
    (hp : w.places p p') : Pending.Like (.storeVariable c old p) (.storeVariable c' old' p')
  | assignIndexContainer {e e' u u'} (frame : Ref) {p p'} (he : e.Like w e') (hu : u.Like w u')
    (hp : w.places p p') : Pending.Like (.assignIndexContainer e u frame p)
    (.assignIndexContainer e' u' frame p')
  | assignIndex {v v' u u'} (frame : Ref) {p p'} (hv : v.Held l A v') (hu : u.Like w u')
    (hp : w.places p p') : Pending.Like (.assignIndex v u frame p) (.assignIndex v' u' frame p')
  | storeIndex {c c' i i' old old' p p'} (hc : c.Held l A c') (hi : i.Held l A i')
    (ho : LikeOld l A old old') (hp : w.places p p') : Pending.Like (.storeIndex c i old p)
    (.storeIndex c' i' old' p')
  | assignFieldContainer {e e' u u'} (frame : Ref) {p p'} (he : e.Like w e') (hu : u.Like w u')
    (hp : w.places p p') : Pending.Like (.assignFieldContainer e u frame p)
    (.assignFieldContainer e' u' frame p')
  | assignField {v v' u u'} (frame : Ref) {p p'} (hv : v.Held l A v') (hu : u.Like w u')
    (hp : w.places p p') : Pending.Like (.assignField v u frame p) (.assignField v' u' frame p')
  | storeField {c c' i i' old old' p p'} (hc : c.Held l A c') (hi : i.Held l A i')
    (ho : LikeOld l A old old') (hp : w.places p p') : Pending.Like (.storeField c i old p)
    (.storeField c' i' old' p')
  | callee {es es'} (frame : Ref) {p p'} (he : Forall₂ (Expr.Like w) es es')
    (hp : w.places p p') : Pending.Like (.callee es frame p) (.callee es' frame p')
  | argument {f f' before before' rest rest'} (frame : Ref) {p p'} (hf : f.Like w l A f')
    (hb : Forall₂ (Value.Held l A) before before') (hr : Forall₂ (Expr.Like w) rest rest')
    (hp : w.places p p') : Pending.Like (.argument f before rest frame p)
    (.argument f' before' rest' frame p')
  | indexContainer {e e'} (frame : Ref) {p p'} (he : e.Like w e') (hp : w.places p p') :
    Pending.Like (.indexContainer e frame p) (.indexContainer e' frame p')
  | index {v v' p p'} (hv : v.Held l A v') (hp : w.places p p') : Pending.Like (.index v p)
    (.index v' p')
  | fieldContainer {e e'} (frame : Ref) {p p'} (he : e.Like w e') (hp : w.places p p') :
    Pending.Like (.fieldContainer e frame p) (.fieldContainer e' frame p')
  | field {v v' p p'} (hv : v.Held l A v') (hp : w.places p p') : Pending.Like (.field v p)
    (.field v' p')
  | declare {slot slot'} (frame : Ref) {p p'} (hs : slot.Like w slot') (hp : w.places p p') :
    Pending.Like (.declare slot frame p) (.declare slot' frame p')
  | print {p p'} (hp : w.places p p') : Pending.Like (.print p) (.print p')
  | block {b b' rest rest'} (frame : Ref) (hb : b.Like w b')
    (hr : Forall₂ (Stmt.Like w) rest rest') : Pending.Like (.block b rest frame)
    (.block b' rest' frame)
  | branch {a a' b b'} (frame : Ref) (ha : a.Like w a') (hb : Option.Rel (Stmt.Like w) b b') :
    Pending.Like (.branch a b frame) (.branch a' b' frame)
  | discard : Pending.Like .discard .discard
  | loopTest {c c' a a' s s' exit exit' next next'} (frame : Ref) (hc : c.Like w c')
    (ha : a.Like w a') (hs : Option.Rel (Expr.Like w) s s') (he : exit.Like w exit')
    (hn : next.Like w next') : Pending.Like (.loopTest c a s exit next frame)
    (.loopTest c' a' s' exit' next' frame)
  | loopBody {c c' a a' s s' exit exit' next next'} (frame : Ref) (hc : c.Like w c')
    (ha : a.Like w a') (hs : Option.Rel (Expr.Like w) s s') (he : exit.Like w exit')
    (hn : next.Like w next') : Pending.Like (.loopBody c a s exit next frame)
    (.loopBody c' a' s' exit' next' frame)
  | loopStep {c c' a a' s s' exit exit' next next'} (frame : Ref) (hc : c.Like w c')
    (ha : a.Like w a') (hs : Option.Rel (Expr.Like w) s s') (he : exit.Like w exit')
    (hn : next.Like w next') : Pending.Like (.loopStep c a s exit next frame)
    (.loopStep c' a' s' exit' next' frame)
  | jumpValue {t t'} (ht : t.Like w t') : Pending.Like (.jumpValue t) (.jumpValue t')
  | site {p p'} (hp : Option.Rel w.places p p') : Pending.Like (.site p) (.site p')

/-- Like stacks over like feet, of machines at work on the interpreter `c` with runs on the
interpreters `cs`.  Behind a call or run they are at work on the caller's. -/
inductive StackLike (foot : Likeness → Ref → List Ref → List Pending → List Pending → Prop) :
    Ref → List Ref → List Pending → List Pending → Prop where
  | foot {c cs s s'} (h : foot w c cs s s') : StackLike foot c cs s s'
  | cons {c cs p p' s s'} (hp : p.Like w l A p') (h : StackLike foot c cs s s') : StackLike foot c
    cs (p :: s) (p' :: s')
  | call {c cs exit exit'} (owner caller : Ref) {p p' s s'} (he : exit.Like w exit')
    (hp : Option.Rel w.places p p') (h : StackLike foot caller cs s s') : StackLike foot c cs
    (.call exit owner caller p :: s) (.call exit' owner caller p' :: s')
  | run {c cs} (caller : Ref) {s s'} (h : StackLike foot caller cs.tail s s') : StackLike foot c cs
    (.run caller :: s) (.run caller :: s')

/-! ### Control -/

/-- Like errors: the same fault at related places. -/
structure RuntimeError.Like (e e' : RuntimeError) : Prop where
  fault : e.fault = e'.fault
  help : e.help = e'.help
  location : Option.Rel w.places e.location e'.location

/-- Machines are about to do the like. -/
inductive Control.Like : Control → Control → Prop where
  | eval {e e' : Expr} (frame : Ref) (h : e.Like w e') :
    Control.Like (.eval e frame) (.eval e' frame)
  | exec {s s' : Stmt} (frame : Ref) (h : s.Like w s') :
    Control.Like (.exec s frame) (.exec s' frame)
  | give {v v' : Value} (h : v.Held l A v') : Control.Like (.give v) (.give v')
  | apply {f f' : Callee} {vs vs'} {p p'} (hf : f.Like w l A f')
    (hv : Forall₂ (Value.Passed l A) vs vs') (hp : Option.Rel w.places p p') :
    Control.Like (.apply f vs p) (.apply f' vs' p')
  | jump {t t' : Label} {v v' : Value} (ht : t.Like w t') (hv : v.Held l A v') :
    Control.Like (.jump t v) (.jump t' v')
  | raise {e e' : RuntimeError} (h : e.Like w e') : Control.Like (.raise e) (.raise e')

end

/-! ### Relating more parts -/

section

variable {w w' : Likeness} {l : Prop} {A B : Container → Prop}

variable {spare : List (Nat × Value)} {f f' : Frame} {i i' : Nat}

lemma Frame.Like.mono (hw : w.Le w') (hA : A ≤ B)
    (h : f.Like w l A spare f') : f.Like w' l B spare f' where
  parent := h.parent
  cells := by
    obtain ⟨own, he, hc⟩ := h.cells
    exact ⟨own, he, hc.imp fun _ _ k => ⟨hw.slots _ _ k.1, k.2.mono hA⟩⟩

lemma Callee.Like.mono (hw : w.Le w') (hA : A ≤ B) {f f' : Callee} (h : f.Like w l A f') :
    f.Like w' l B f' := by
  cases h with
  | value h => exact .value (h.mono hA)
  | native h => exact .native (h.mono hw)

lemma LikeOld.mono (hA : A ≤ B) {o o'} (h : LikeOld l A o o') : LikeOld l B o o' :=
  rel_of_mem h fun _ _ _ k => ⟨k.1, k.2.mono hA⟩

lemma Cell.Like.mono (hw : w.Le w') {c c' : Cell} (h : c.Like w c') : c.Like w' c' :=
  ⟨h.frame, hw.slots _ _ h.id⟩

lemma rel_places_mono (hw : w.Le w') {p p'} (h : Option.Rel w.places p p') :
    Option.Rel w'.places p p' :=
  rel_of_mem h fun _ _ _ => hw.places _ _

lemma forall₂_expr_mono (hw : w.Le w') {es es'} (h : Forall₂ (Expr.Like w) es es') :
    Forall₂ (Expr.Like w') es es' :=
  h.imp fun _ _ => .mono hw

lemma forall₂_held_mono (hA : A ≤ B) {vs vs'} (h : Forall₂ (Value.Held l A) vs vs') :
    Forall₂ (Value.Held l B) vs vs' :=
  h.imp fun _ _ => .mono hA

lemma rel_expr_mono (hw : w.Le w') {e e'} (h : Option.Rel (Expr.Like w) e e') :
    Option.Rel (Expr.Like w') e e' :=
  rel_of_mem h fun _ _ _ => .mono hw

lemma Pending.Like.mono (hw : w.Le w') (hA : A ≤ B) {p p' : Pending} (h : p.Like w l A p') :
    p.Like w' l B p' := by
  -- Each of the parts of a pending part is related by the larger relations too.
  cases h <;> constructor <;> first
    | exact hw.places _ _ ‹_›
    | exact Expr.Like.mono hw ‹_›
    | exact Stmt.Like.mono hw ‹_›
    | exact Update.Like.mono hw ‹_›
    | exact Value.Held.mono hA ‹_›
    | exact Label.Like.mono hw ‹_›
    | exact Slot.Like.mono hw ‹_›
    | exact Cell.Like.mono hw ‹_›
    | exact LikeOld.mono hA ‹_›
    | exact Block.Like.mono hw ‹_›
    | exact Callee.Like.mono hw hA ‹_›
    | exact forall₂_expr_mono hw ‹_›
    | exact forall₂_held_mono hA ‹_›
    | exact rel_expr_mono hw ‹_›
    | exact rel_places_mono hw ‹_›
    | exact hA _ ‹_›
    | exact Forall₂.imp (fun _ _ => Value.Boxed.mono hA) ‹_›
    | exact Forall₂.imp (fun _ _ => Expr.LikeField.mono hw) ‹_›
    | exact Forall₂.imp (fun _ _ => Stmt.Like.mono hw) ‹_›
    | exact rel_of_mem ‹_› fun _ _ _ => Stmt.Like.mono hw

lemma StackLike.mono {foot : Likeness → Ref → List Ref → List Pending → List Pending → Prop}
    (hf : ∀ {c cs s s'}, foot w c cs s s' → foot w' c cs s s') (hw : w.Le w') (hA : A ≤ B)
    {c cs s s'} (h : StackLike w l A foot c cs s s') : StackLike w' l B foot c cs s s' := by
  induction h with
  | foot h => exact .foot (hf h)
  | cons hp _ ih => exact .cons (hp.mono hw hA) ih
  | call owner caller he hp _ ih =>
    exact .call owner caller (he.mono hw) (rel_places_mono hw hp) ih
  | run caller _ ih => exact .run caller ih

/-! ### Looking variables up -/

lemma rel_lookup_cells (hw : w.Exact) {own own'}
    (h : Forall₂ (fun c c' => w.slots c.1 c'.1 ∧ c.2.Held l A c'.2) own own') (hi : w.slots i i') :
    Option.Rel (Value.Held l A) (own.lookup i) (own'.lookup i') := by
  induction h with
  | nil => exact .none
  | @cons c c' own own' hc _ ih =>
    obtain ⟨j, v⟩ := c
    obtain ⟨j', v'⟩ := c'
    have same : (i == j) = (i' == j') := by simpa using hw.slots hi hc.1
    rw [lookup_cons, lookup_cons, same]
    split
    · exact .some hc.2
    · exact ih

lemma lookup_append_of_apart {own} (h : ∀ c ∈ spare, c.1 ≠ i) :
    (own ++ spare).lookup i = own.lookup i := by
  have none : spare.lookup i = none := by
    rw [lookup_eq_none_iff]
    intro c hc
    simpa using Ne.symm (h c hc)
  rw [lookup_append, none, Option.or_none]

lemma Frame.Like.get? (h : f.Like w l A spare f')
    (hw : w.Exact) (hi : w.slots i i') (hs : ∀ c ∈ spare, c.1 ≠ i') :
    Option.Rel (Value.Held l A) (f.get? i) (f'.get? i') := by
  obtain ⟨own, he, hc⟩ := h.cells
  unfold Frame.get?
  rw [he, lookup_append_of_apart hs]
  exact rel_lookup_cells hw hc hi

lemma Frame.Like.of_cells (parent) {cells cells'}
    (h : Forall₂ (fun c c' => w.slots c.1 c'.1 ∧ c.2.Held l A c'.2) cells cells') :
    Frame.Like w l A [] { parent := parent, cells := cells } { parent := parent, cells := cells' } :=
  ⟨rfl, cells', (append_nil cells').symm, h⟩

lemma Frame.Like.set (h : f.Like w l A spare f')
    (hw : w.Exact) (hi : w.slots i i') (hs : ∀ c ∈ spare, c.1 ≠ i') {v v' : Value}
    (hv : v.Held l A v') : (f.set i v).Like w l A spare (f'.set i' v') where
  parent := h.parent
  cells := by
    obtain ⟨own, he, hc⟩ := h.cells
    refine ⟨own.map fun c => if c.1 = i' then (i', v') else c, ?_, ?_⟩
    · have keep : spare.map (fun c => if c.1 = i' then (i', v') else c) = spare :=
        (map_congr_left fun c hc => if_neg (hs c hc)).trans (map_id' spare)
      simp only [Frame.set, he, map_append, keep]
    · simp only [Frame.set]
      rw [forall₂_map_left_iff, forall₂_map_right_iff]
      refine hc.imp fun c c' k => ?_
      by_cases hci : c.1 = i
      · rw [if_pos hci, if_pos ((hw.slots k.1 hi).1 hci)]
        exact ⟨hi, hv⟩
      · rw [if_neg hci, if_neg (mt (hw.slots k.1 hi).2 hci)]
        exact k

lemma Frame.Like.extend (h : f.Like w l A [] f') (hw : w.Exact) {slots slots'}
    (hs : Forall₂ (Slot.Like w) slots slots') :
    (f.extend slots).Like w l A [] (f'.extend slots') := by
  induction hs generalizing f f' with
  | nil => exact h
  | @cons s s' slots slots' hs _ ih =>
    have known : (f.get? s.id).isSome = (f'.get? s'.id).isSome :=
      isSome_eq_of_rel (h.get? hw hs.id (forall_mem_nil _))
    simp only [Frame.extend, foldl_cons] at ih ⊢
    refine ih ?_
    rw [← known]
    split
    · exact h
    · obtain ⟨own, he, hc⟩ := h.cells
      refine ⟨h.parent, own ++ [(s'.id, .null)], ?_, ?_⟩
      · simp only [he, append_nil]
      · exact rel_append hc (.cons ⟨hs.id, .boxed .null⟩ .nil)

end

/-! ### Settings -/

/-- Like outcomes of compiling: both fail, or the units are alike and have the same errors. -/
inductive LikeCompiled (w : Likeness) :
    Except ParseFailure CompiledUnit → Except ParseFailure CompiledUnit → Prop where
  | error (e e' : ParseFailure) : LikeCompiled w (.error e) (.error e')
  | unit {u u' : CompiledUnit} (body : u.program.body.Like w u'.program.body)
    (errors : u.errors = u'.errors) (scanErrors : u.scanErrors = u'.scanErrors) :
    LikeCompiled w (.ok u) (.ok u')

/-- What like machines may differ in: whether the likeness of values is loose, the variables that
only the second has, the feet of the stacks, and how the likeness is tied to the numbers handed out,
which compiling the same text keeps up. -/
structure Setting where
  loose : Prop
  spare : Ref → List (Nat × Value)
  foot : Likeness → Ref → List Ref → List Pending → List Pending → Prop
  tied : Likeness → Supply → Supply → Prop
  foot_mono : ∀ {w w' c cs s s'}, w.Le w' → foot w c cs s s' → foot w' c cs s s'
  exact : ∀ {w s s'}, tied w s s' → w.Exact
  apart : ∀ {w s s'}, tied w s s' → ∀ r, ∀ c ∈ spare r, ∀ i, ¬ w.slots i c.1
  compile : ∀ {w s s'}, tied w s s' → ∀ (source : String) (natives : Registry),
    natives.Allowed w → ∃ w', w.Le w' ∧ w'.bound = w.bound ∧
      tied w' (compile source Machine.evalOptions natives [] s).supply
        (compile source Machine.evalOptions natives [] s').supply ∧
      (compile source Machine.evalOptions natives [] s).log =
        (compile source Machine.evalOptions natives [] s').log ∧
      LikeCompiled w' (compile source Machine.evalOptions natives [] s).result
        (compile source Machine.evalOptions natives [] s').result

/-! ### Machines -/

namespace Machine

variable {S : Setting} {w w' : Likeness} {A B : Container → Prop} {m m' : Machine}

/-- Machines that are alike except for what they are about to do. -/
structure Akin (S : Setting) (w : Likeness) (A : Container → Prop) (m m' : Machine) : Prop where
  tied : S.tied w m.supply m'.supply
  heap : m.heap.Like w S.loose A m'.heap
  frames_size : m.frames.size = m'.frames.size
  frames : ∀ r, (frameAt m.frames r).Like w S.loose A (S.spare r) (frameAt m'.frames r)
  interpreters : m.interpreters = m'.interpreters
  current : m.current = m'.current
  collectors : m.collectors = m'.collectors
  registry : m.registry = m'.registry
  world : m.world = m'.world
  natives : m.registry.Allowed w
  bound : ∀ v, w.bound v → v.Hosted S.loose A v
  input : ∀ v, m.world.hooks.waitInput = some v → v.Hosted S.loose A v
  stack : StackLike w S.loose A S.foot m.current m.collectors m.stack m'.stack

/-- Like machines, with perhaps more numbers and containers related. -/
def Like (S : Setting) (w : Likeness) (A : Container → Prop) (m m' : Machine) : Prop :=
  ∃ w' B, w.Le w' ∧ A ≤ B ∧ Akin S w' B m m' ∧ m.control.Like w' S.loose B m'.control

lemma Like.widen (hw : w.Le w') (hA : A ≤ B) (h : Like S w' B m m') : Like S w A m m' := by
  obtain ⟨w'', C, hw', hB, h⟩ := h
  exact ⟨w'', C, hw.trans hw', hA.trans hB, h⟩

namespace Akin

section

variable (h : Akin S w A m m')
include h

lemma exact : w.Exact :=
  S.exact h.tied

lemma apart {i i' : Nat} (hi : w.slots i i') (r) : ∀ c ∈ S.spare r, c.1 ≠ i' := by
  rintro c hc rfl
  exact S.apart h.tied r c hc i hi

lemma like (hc : m.control.Like w S.loose A m'.control) :
    Like S w A m m' :=
  ⟨w, A, .refl w, le_rfl, h, hc⟩

lemma go {c c' : Control} (hc : c.Like w S.loose A c') :
    (m.go c).Like S w A (m'.go c') := by
  have akin : Akin S w A (m.go c) (m'.go c') :=
    ⟨h.tied, h.heap, h.frames_size, h.frames, h.interpreters, h.current, h.collectors, h.registry,
      h.world, h.natives, h.bound, h.input, h.stack⟩
  exact akin.like hc

lemma pend {p p' : Pending} (hp : p.Like w S.loose A p') :
    Akin S w A { m with stack := p :: m.stack } { m' with stack := p' :: m'.stack } :=
  { h with stack := .cons hp h.stack }

lemma setHeap (hA : A ≤ B) {k k' : Heap} (hk : k.Like w S.loose B k') :
    Akin S w B { m with heap := k } { m' with heap := k' } :=
  { h with
    heap := hk
    frames := fun r => (h.frames r).mono (.refl w) hA
    bound := fun v hv => (h.bound v hv).mono hA
    input := fun v hv => (h.input v hv).mono hA
    stack := h.stack.mono id (.refl w) hA }

lemma spare_eq_nil {r} (hr : m.frames.size ≤ r) : S.spare r = [] := by
  obtain ⟨own, he, -⟩ := (h.frames r).cells
  rw [frameAt_of_le (h.frames_size ▸ hr)] at he
  exact (append_eq_nil_iff.1 he.symm).2

lemma newFrame {f f' : Frame} (hf : f.Like w S.loose A [] f') :
    Akin S w A (m.newFrame f).2 (m'.newFrame f').2 := by
  refine { h with frames_size := by simp [Machine.newFrame, h.frames_size], frames := fun r => ?_ }
  simp only [Machine.newFrame, Grows.frameAt_push, ← h.frames_size]
  split
  · rename_i hr
    rw [h.spare_eq_nil (Nat.le_of_eq hr.symm)]
    exact hf
  · exact h.frames r

lemma modifyFrame (i) (g g' : Frame → Frame)
    (hg : (g (frameAt m.frames i)).Like w S.loose A (S.spare i) (g' (frameAt m'.frames i))) :
    Akin S w A { m with frames := m.frames.modify i g }
      { m' with frames := m'.frames.modify i g' } := by
  refine { h with frames_size := by simp [h.frames_size], frames := fun r => ?_ }
  by_cases hr : r < m.frames.size
  · rw [Grows.frameAt_modify _ _ _ _ hr, Grows.frameAt_modify _ _ _ _ (h.frames_size ▸ hr)]
    split
    · subst_vars
      exact hg
    · exact h.frames r
  · have none := Nat.le_of_not_lt hr
    have kept := h.frames r
    rw [frameAt_of_le none, frameAt_of_le (h.frames_size ▸ none)] at kept
    rwa [frameAt_of_le (by simpa using none), frameAt_of_le (by simpa [← h.frames_size] using none)]

lemma relate (hw : w.Le w') (hb : w'.bound = w.bound) {s s'} (hs : S.tied w' s s') (messages) :
    Akin S w' A { m with supply := s, world := m.world.send messages }
      { m' with supply := s', world := m'.world.send messages } :=
  { h with
    tied := hs
    heap := h.heap.mono hw
    frames := fun r => (h.frames r).mono hw le_rfl
    world := by rw [h.world]
    natives := fun name f hf => (h.natives name f hf).mono hw
    bound := fun v hv => h.bound v (hb ▸ hv)
    input := h.input
    stack := h.stack.mono (S.foot_mono hw) hw le_rfl }

end

end Akin

end Machine

end DynScript

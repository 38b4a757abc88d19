import DynScript.Heap
import DynScript.Proofs.Scoping
import Mathlib.Data.List.Forall2

/-!
# Like code

Two pieces of code are alike when they differ only in the numbers of their slots and labels and in the
places they come from.
-/

namespace DynScript

open List

/-- How like code may differ: the related numbers of slots and labels, the related places, and the
values that native functions are bound to. -/
structure Likeness where
  slots : Nat → Nat → Prop
  labels : Nat → Nat → Prop
  places : Location → Location → Prop
  bound : Value → Prop

namespace Likeness

/-- A likeness that relates all that another one does. -/
structure Le (w w' : Likeness) : Prop where
  slots : ∀ i j, w.slots i j → w'.slots i j
  labels : ∀ i j, w.labels i j → w'.labels i j
  places : ∀ p q, w.places p q → w'.places p q
  bound : ∀ v, w.bound v → w'.bound v

/-- Related numbers are equal on both sides or on none. -/
structure Exact (w : Likeness) : Prop where
  slots : ∀ {i i' j j' : Nat}, w.slots i i' → w.slots j j' → (i = j ↔ i' = j')
  labels : ∀ {i i' j j' : Nat}, w.labels i i' → w.labels j j' → (i = j ↔ i' = j')

lemma Le.refl (w : Likeness) : w.Le w :=
  ⟨fun _ _ => id, fun _ _ => id, fun _ _ => id, fun _ => id⟩

lemma Le.trans {w w' w'' : Likeness} (h : w.Le w') (k : w'.Le w'') : w.Le w'' where
  slots i j := k.slots i j ∘ h.slots i j
  labels i j := k.labels i j ∘ h.labels i j
  places p q := k.places p q ∘ h.places p q
  bound v := k.bound v ∘ h.bound v

end Likeness

/-! ### The relation -/

section

variable (w : Likeness)

/-- Slots that differ in their numbers only. -/
structure Slot.Like (s s' : Slot) : Prop where
  id : w.slots s.id s'.id
  name : s.name = s'.name
  constant : s.constant = s'.constant

/-- Labels that differ in their numbers only. -/
structure Label.Like (l l' : Label) : Prop where
  id : w.labels l.id l'.id
  name : l.name = l'.name
  kind : l.kind = l'.kind

/-- The values that a native function is bound to. -/
def NativeFunction.bound (f : NativeFunction) : List Value :=
  match f.body with
  | .builtin _ => []
  | .host _ bound => bound

/-- A native function is bound to values that a likeness allows. -/
def NativeFunction.Allowed (f : NativeFunction) : Prop :=
  ∀ v ∈ f.bound, w.bound v

/-- The functions of a registry are bound to values that a likeness allows. -/
def Registry.Allowed (r : Registry) : Prop :=
  ∀ name f, r.lookup name = some f → f.Allowed w

mutual

/-- Expressions that differ in numbers and places only. -/
inductive Expr.Like : Expr → Expr → Prop where
  | literal (value : Constant) {p p'} (hp : w.places p p') : Expr.Like (.literal value p)
    (.literal value p')
  | read {slot slot' p p'} (hs : slot.Like w slot') (hp : w.places p p') : Expr.Like (.read slot p)
    (.read slot' p')
  | box {e e'} (h : Expr.Like e e') : Expr.Like (.box e) (.box e')
  | unbox {e e'} (h : Expr.Like e e') : Expr.Like (.unbox e) (.unbox e')
  | array {l l' p p'} (h : Forall₂ Expr.Like l l') (hp : w.places p p') : Expr.Like
    (.array l p) (.array l' p')
  | record {l l' self self' p p'} (h : Forall₂ Expr.LikeField l l') (hs : self.Like w self')
    (hp : w.places p p') : Expr.Like (.record l self p) (.record l' self' p')
  | function (name : String) {params params' body body'} {exit exit' self self' p p'}
    (hv : Forall₂ (Slot.Like w) params params') (hb : Block.Like body body')
    (he : exit.Like w exit') (hs : Option.Rel (Slot.Like w) self self') (hp : w.places p p') :
    Expr.Like (.function name params body exit self p) (.function name params' body' exit' self' p')
  | binary (op : BinaryOp) {l l' r r' p p'} (hl : Expr.Like l l') (hr : Expr.Like r r')
    (hp : w.places p p') : Expr.Like (.binary op l r p) (.binary op l' r' p')
  | logical (op : LogicalOp) {l l' r r' p p'} (hl : Expr.Like l l') (hr : Expr.Like r r')
    (hp : w.places p p') : Expr.Like (.logical op l r p) (.logical op l' r' p')
  | unary (op : UnaryOp) {e e' p p'} (h : Expr.Like e e') (hp : w.places p p') : Expr.Like
    (.unary op e p) (.unary op e' p')
  | ternary {c c' a a' b b' p p'} (hc : Expr.Like c c') (ha : Expr.Like a a') (hb : Expr.Like b b')
    (hp : w.places p p') : Expr.Like (.ternary c a b p) (.ternary c' a' b' p')
  | assignVariable {slot slot' u u' p p'} (hs : slot.Like w slot') (hu : Update.Like u u')
    (hp : w.places p p') : Expr.Like (.assignVariable slot u p) (.assignVariable slot' u' p')
  | assignIndex {c c' i i' u u' p p'} (hc : Expr.Like c c') (hi : Expr.Like i i')
    (hu : Update.Like u u') (hp : w.places p p') : Expr.Like (.assignIndex c i u p)
    (.assignIndex c' i' u' p')
  | assignField {c c' i i' u u' p p'} (hc : Expr.Like c c') (hi : Expr.Like i i')
    (hu : Update.Like u u') (hp : w.places p p') : Expr.Like (.assignField c i u p)
    (.assignField c' i' u' p')
  | call {f f' l l' p p'} (hf : Expr.Like f f') (hl : Forall₂ Expr.Like l l')
    (hp : w.places p p') : Expr.Like (.call f l p) (.call f' l' p')
  | native (name : String) {f} (hf : f.Allowed w) {l l'} {p p'} (hl : Forall₂ Expr.Like l l')
    (hp : w.places p p') : Expr.Like (.native name f l p) (.native name f l' p')
  | index {c c' i i' p p'} (hc : Expr.Like c c') (hi : Expr.Like i i') (hp : w.places p p') :
    Expr.Like (.index c i p) (.index c' i' p')
  | field {c c' i i' p p'} (hc : Expr.Like c c') (hi : Expr.Like i i') (hp : w.places p p') :
    Expr.Like (.field c i p) (.field c' i' p')

/-- Fields with like values. -/
inductive Expr.LikeField : String × Expr → String × Expr → Prop where
  | mk (name : String) {e e'} (h : Expr.Like e e') : Expr.LikeField (name, e) (name, e')

/-- Like updates. -/
inductive Update.Like : Update → Update → Prop where
  | set {e e'} (h : Expr.Like e e') : Update.Like (.set e) (.set e')
  | combine (op : BinaryOp) {e e'} (h : Expr.Like e e') :
    Update.Like (.combine op e) (.combine op e')
  | step (op : UnaryOp) : Update.Like (.step op) (.step op)

/-- Statements that differ in numbers and places only. -/
inductive Stmt.Like : Stmt → Stmt → Prop where
  | expression {e e' p p'} (h : Expr.Like e e') (hp : w.places p p') : Stmt.Like (.expression e p)
    (.expression e' p')
  | declare {slot slot' e e' p p'} (hs : slot.Like w slot') (h : Expr.Like e e')
    (hp : w.places p p') : Stmt.Like (.declare slot e p) (.declare slot' e' p')
  | print {e e' p p'} (h : Expr.Like e e') (hp : w.places p p') : Stmt.Like (.print e p)
    (.print e' p')
  | block {b b'} (h : Block.Like b b') : Stmt.Like (.block b) (.block b')
  | branch {c c' a a' b b' p p'} (hc : Expr.Like c c') (ha : Stmt.Like a a')
    (hb : Option.Rel Stmt.Like b b') (hp : w.places p p') : Stmt.Like (.branch c a b p)
    (.branch c' a' b' p')
  | loop {c c' a a' s s' exit exit' next next'} {p p'} (hc : Expr.Like c c') (ha : Stmt.Like a a')
    (hs : Option.Rel Expr.Like s s') (he : exit.Like w exit') (hn : next.Like w next')
    (hp : w.places p p') : Stmt.Like (.loop c a s exit next p) (.loop c' a' s' exit' next' p')
  | jump {l l' e e' p p'} (hl : l.Like w l') (h : Option.Rel Expr.Like e e') (hp : w.places p p') :
    Stmt.Like (.jump l e p) (.jump l' e' p')
  | label {l l' p p'} (hl : l.Like w l') (hp : w.places p p') : Stmt.Like (.label l p)
    (.label l' p')

/-- Blocks of like statements and slots. -/
inductive Block.Like : Block → Block → Prop where
  | mk {l l'} {slots slots'} {p p'}
    (h : Forall₂ Stmt.Like l l') (hs : Forall₂ (Slot.Like w) slots slots')
    (hp : w.places p p') : Block.Like (.mk l slots p) (.mk l' slots' p')

end

end

/-! ### Relating more -/

lemma forall₂_of_mem {α β : Type} {R S : α → β → Prop} {l l'} (h : Forall₂ R l l')
    (hi : ∀ a ∈ l, ∀ b, R a b → S a b) : Forall₂ S l l' := by
  induction h with
  | nil => exact .nil
  | cons hab _ ih =>
    exact .cons (hi _ mem_cons_self _ hab) (ih fun a ha => hi a (mem_cons_of_mem _ ha))

lemma rel_of_mem {α β : Type} {R S : α → β → Prop} {o o'} (h : Option.Rel R o o')
    (hi : ∀ a ∈ o, ∀ b, R a b → S a b) : Option.Rel S o o' := by
  cases h with
  | none => exact .none
  | some h => exact .some (hi _ rfl _ h)

section

variable {w w' : Likeness}

lemma Slot.Like.mono (h : w.Le w') {s s' : Slot} (k : s.Like w s') : s.Like w' s' :=
  ⟨h.slots _ _ k.id, k.name, k.constant⟩

lemma Label.Like.mono (h : w.Le w') {l l' : Label} (k : l.Like w l') : l.Like w' l' :=
  ⟨h.labels _ _ k.id, k.name, k.kind⟩

lemma NativeFunction.Allowed.mono (h : w.Le w') {f : NativeFunction} (k : f.Allowed w) :
    f.Allowed w' :=
  fun v hv => h.bound v (k v hv)

mutual

lemma Expr.Like.mono (h : w.Le w') {e e' : Expr} (k : e.Like w e') : e.Like w' e' := by
  cases k <;> constructor <;> first
    | exact h.places _ _ ‹_›
    | exact Slot.Like.mono h ‹_›
    | exact Label.Like.mono h ‹_›
    | exact NativeFunction.Allowed.mono h ‹_›
    | exact Forall₂.imp (fun _ _ => Slot.Like.mono h) ‹_›
    | exact rel_of_mem ‹_› fun _ _ _ => Slot.Like.mono h
    | exact Expr.Like.mono h ‹_›
    | exact Update.Like.mono h ‹_›
    | exact Block.Like.mono h ‹_›
    | exact forall₂_of_mem ‹_› fun e _he _ ke => Expr.Like.mono h ke
    | exact forall₂_of_mem ‹_› fun f _hf _ kf => Expr.LikeField.mono h kf
termination_by sizeOf e
decreasing_by
  all_goals simp only [sizeOf_code]
  all_goals first
    | omega
    | have := sizeOf_lt_of_mem ‹_›
      omega

lemma Expr.LikeField.mono (h : w.Le w') {f f'} (k : Expr.LikeField w f f') :
    Expr.LikeField w' f f' := by
  cases k
  exact .mk _ (Expr.Like.mono h ‹_›)
termination_by sizeOf f
decreasing_by
  simp only [Prod.mk.sizeOf_spec]
  omega

lemma Update.Like.mono (h : w.Le w') {u u' : Update} (k : u.Like w u') : u.Like w' u' := by
  cases k <;> constructor <;> exact Expr.Like.mono h ‹_›
termination_by sizeOf u
decreasing_by
  all_goals simp only [sizeOf_code]
  all_goals omega

lemma Stmt.Like.mono (h : w.Le w') {s s' : Stmt} (k : s.Like w s') : s.Like w' s' := by
  cases k <;> constructor <;> first
    | exact h.places _ _ ‹_›
    | exact Slot.Like.mono h ‹_›
    | exact Label.Like.mono h ‹_›
    | exact Expr.Like.mono h ‹_›
    | exact Stmt.Like.mono h ‹_›
    | exact Block.Like.mono h ‹_›
    | exact rel_of_mem ‹_› fun s _hs _ ks => Stmt.Like.mono h ks
    | exact rel_of_mem ‹_› fun e _he _ ke => Expr.Like.mono h ke
termination_by sizeOf s
decreasing_by
  all_goals simp only [sizeOf_code]
  all_goals first
    | omega
    | have := sizeOf_lt_of_some ‹_›
      omega

lemma Block.Like.mono (h : w.Le w') {b b' : Block} (k : b.Like w b') : b.Like w' b' := by
  cases k
  exact .mk (forall₂_of_mem ‹_› fun s _hs _ ks => Stmt.Like.mono h ks)
    (Forall₂.imp (fun _ _ => Slot.Like.mono h) ‹_›) (h.places _ _ ‹_›)
termination_by sizeOf b
decreasing_by
  simp only [sizeOf_code]
  have := sizeOf_lt_of_mem ‹_›
  omega

end

lemma Block.Like.statements {b b' : Block} (h : b.Like w b') :
    Forall₂ (Stmt.Like w) b.statements b'.statements := by
  cases h
  assumption

lemma Block.Like.slots {b b' : Block} (h : b.Like w b') :
    Forall₂ (Slot.Like w) b.slots b'.slots := by
  cases h
  assumption

lemma Expr.Like.place : ∀ {e e' : Expr}, e.Like w e' → w.places e.place e'.place
  | .box _, _, .box k => by simpa only [Expr.place] using k.place
  | .unbox _, _, .unbox k => by simpa only [Expr.place] using k.place
  | .literal .., _, .literal _ hp | .read .., _, .read _ hp | .array .., _, .array _ hp
  | .record .., _, .record _ _ hp | .function .., _, .function _ _ _ _ _ hp
  | .binary .., _, .binary _ _ _ hp | .logical .., _, .logical _ _ _ hp
  | .unary .., _, .unary _ _ hp | .ternary .., _, .ternary _ _ _ hp
  | .assignVariable .., _, .assignVariable _ _ hp | .assignIndex .., _, .assignIndex _ _ _ hp
  | .assignField .., _, .assignField _ _ _ hp | .call .., _, .call _ _ hp
  | .native .., _, .native _ _ _ hp | .index .., _, .index _ _ hp
  | .field .., _, .field _ _ hp => by simpa only [Expr.place] using hp
termination_by e => sizeOf e
decreasing_by
  all_goals simp only [sizeOf_code]
  all_goals omega

lemma Expr.Like.isDynamic : ∀ {e e' : Expr}, e.Like w e' → e.isDynamic = e'.isDynamic
  | .read .., _, .read hs _ => by simp only [Expr.isDynamic, hs.constant]
  | .binary .., _, .binary _ hl hr _ => by simp only [Expr.isDynamic, hl.isDynamic, hr.isDynamic]
  | .unary .., _, .unary _ h _ => by simp only [Expr.isDynamic, h.isDynamic]
  | .index .., _, .index hc hi _ => by simp only [Expr.isDynamic, hc.isDynamic, hi.isDynamic]
  | .box _, _, .box _ | .unbox _, _, .unbox _ | .literal .., _, .literal _ _
  | .array .., _, .array _ _ | .record .., _, .record _ _ _
  | .function .., _, .function _ _ _ _ _ _ | .logical .., _, .logical _ _ _ _
  | .ternary .., _, .ternary _ _ _ _ | .assignVariable .., _, .assignVariable _ _ _
  | .assignIndex .., _, .assignIndex _ _ _ _ | .assignField .., _, .assignField _ _ _ _
  | .call .., _, .call _ _ _ | .native .., _, .native _ _ _ _
  | .field .., _, .field _ _ _ => by simp only [Expr.isDynamic]
termination_by e => sizeOf e
decreasing_by
  all_goals simp only [sizeOf_code]
  all_goals omega

lemma Expr.Like.boxed {e e' : Expr} (h : e.Like w e') : e.boxed.Like w e'.boxed := by
  unfold Expr.boxed
  rw [← h.isDynamic]
  split
  · exact h
  · exact .box h

end

end DynScript

import DynScript.Grammar.Expression
import DynScript.Proofs.Likeness

/-!
# Related code

The parser makes code in a few ways only: it puts parts that it has made together, with slots and labels
that it has made and at the places of tokens.
-/

namespace DynScript

open List

/-- A relation on code and on what it is made of.  A variable can be bound to a slot only under some
`name`; the slot of a switch is `hidden`, and is bound to none.  A `part` is an expression that stands
where a value has to be boxed. -/
structure Coding where
  slotNumber : Nat → Nat → Prop
  labelNumber : Nat → Nat → Prop
  place : Location → Location → Prop
  name : String → Prop
  native : NativeFunction → Prop
  slot : Slot → Slot → Prop
  hidden : Slot → Slot → Prop
  label : Label → Label → Prop
  expr : Expr → Expr → Prop
  part : Expr → Expr → Prop
  update : Update → Update → Prop
  stmt : Stmt → Stmt → Prop
  block : Block → Block → Prop

/-- An expression at which the parser does not look again. -/
def Expr.isOther : Expr → Bool
  | .literal .. | .read .. | .index .. | .field .. => false
  | _ => true

/-- What the parser finds when it looks at related expressions. -/
inductive Expr.Form (c : Coding) : Expr → Expr → Prop where
  | literal (value : Constant) (p p' : Location) : Form c (.literal value p) (.literal value p')
  | read {slot slot'} (hs : c.slot slot slot') (p p' : Location) :
    Form c (.read slot p) (.read slot' p')
  | index {a a' i i'} (ha : c.expr a a') (hi : c.expr i i') (p p' : Location) :
    Form c (.index a i p) (.index a' i' p')
  | field {a a' k k'} (ha : c.expr a a') (hk : c.expr k k') (p p' : Location) :
    Form c (.field a k p) (.field a' k' p')
  | other {e e' : Expr} (h : e.isOther = true) (h' : e'.isOther = true) : Form c e e'

namespace Coding

variable (c : Coding)

/-- Fields with one name and related values. -/
def fields (f f' : String × Expr) : Prop :=
  f.1 = f'.1 ∧ c.part f.2 f'.2

/-- Cases with related tests and bodies. -/
def cases (x x' : Expr × Stmt) : Prop :=
  c.expr x.1 x'.1 ∧ c.stmt x.2 x'.2

/-- Every way in which the parser puts code together keeps the relation. -/
structure Lawful : Prop where
  names : ∀ n ∈ ["this", "_", "self"], c.name n
  slot_eq : ∀ {s s'}, c.slot s s' → s.name = s'.name ∧ s.constant = s'.constant
  label_eq : ∀ {l l'}, c.label l l' → l.name = l'.name ∧ l.kind = l'.kind
  newSlot : ∀ {name constant p p' i j}, c.name name → c.slotNumber i j → Option.Rel c.place p p' →
    c.slot ⟨name, constant, p, i⟩ ⟨name, constant, p', j⟩
  newHidden : ∀ {p p' i j}, c.slotNumber i j → Option.Rel c.place p p' →
    c.hidden ⟨"switch", false, p, i⟩ ⟨"switch", false, p', j⟩
  newLabel : ∀ {name kind i j}, c.labelNumber i j → c.label ⟨name, kind, i⟩ ⟨name, kind, j⟩
  place : ∀ {e e'}, c.expr e e' → c.place e.place e'.place
  form : ∀ {e e'}, c.expr e e' → Expr.Form c e e'
  boxed : ∀ {e e'}, c.expr e e' → c.part e.boxed e'.boxed
  of_part : ∀ {e e'}, c.part e e' → c.expr e e'
  literal : ∀ {v p p'}, c.place p p' → c.expr (.literal v p) (.literal v p')
  read : ∀ {s s' p p'}, c.slot s s' → c.place p p' → c.expr (.read s p) (.read s' p')
  array : ∀ {l l' p p'}, Forall₂ c.part l l' → c.place p p' → c.expr (.array l p) (.array l' p')
  record : ∀ {l l' s s' p p'}, Forall₂ c.fields l l' → c.slot s s' → c.place p p' →
    c.expr (.record l s p) (.record l' s' p')
  function : ∀ {name v v' b b' l l' s s' p p'}, Forall₂ c.slot v v' → c.block b b' →
    c.label l l' → Option.Rel c.slot s s' → c.place p p' →
    c.part (.function name v b l s p) (.function name v' b' l' s' p')
  join : ∀ {op : Grammar.Connective} {a a' b b' p p'}, c.expr a a' → c.expr b b' → c.place p p' →
    c.expr (op.join a b p) (op.join a' b' p')
  unary : ∀ {op a a' p p'}, c.expr a a' → c.place p p' → c.expr (.unary op a p) (.unary op a' p')
  ternary : ∀ {a a' b b' d d' p p'}, c.expr a a' → c.part b b' → c.part d d' → c.place p p' →
    c.expr (.ternary a b d p) (.ternary a' b' d' p')
  assignVariable : ∀ {s s' u u' p p'}, s.constant = false → c.slot s s' → c.update u u' →
    c.place p p' → c.expr (.assignVariable s u p) (.assignVariable s' u' p')
  assignIndex : ∀ {a a' i i' u u' p p'}, c.expr a a' → c.expr i i' → c.update u u' → c.place p p' →
    c.expr (.assignIndex a i u p) (.assignIndex a' i' u' p')
  assignField : ∀ {a a' i i' u u' p p'}, c.expr a a' → c.expr i i' → c.update u u' → c.place p p' →
    c.expr (.assignField a i u p) (.assignField a' i' u' p')
  call : ∀ {f f' l l' p p'}, c.expr f f' → Forall₂ c.part l l' → c.place p p' →
    c.expr (.call f l p) (.call f' l' p')
  native : ∀ {name f l l' p p'}, c.native f → Forall₂ c.part l l' → c.place p p' →
    c.expr (.native name f l p) (.native name f l' p')
  index : ∀ {a a' i i' p p'}, c.expr a a' → c.expr i i' → c.place p p' →
    c.expr (.index a i p) (.index a' i' p')
  field : ∀ {a a' i i' p p'}, c.expr a a' → c.expr i i' → c.place p p' →
    c.expr (.field a i p) (.field a' i' p')
  compare : ∀ {s s' a a' p p'}, c.hidden s s' → c.expr a a' → c.place p p' →
    c.expr (.binary .equal (.read s p) a p) (.binary .equal (.read s' p') a' p')
  set : ∀ {e e'}, c.part e e' → c.update (.set e) (.set e')
  combine : ∀ {op e e'}, c.part e e' → c.update (.combine op e) (.combine op e')
  step : ∀ {op}, c.update (.step op) (.step op)
  expression : ∀ {e e' p p'}, c.expr e e' → c.place p p' →
    c.stmt (.expression e p) (.expression e' p')
  declare : ∀ {s s' e e' p p'}, s.constant = false → c.slot s s' → c.part e e' → c.place p p' →
    c.stmt (.declare s e p) (.declare s' e' p')
  constant : ∀ {s s' e e' p p'}, s.constant = true → c.slot s s' → c.expr e e' → c.place p p' →
    c.stmt (.declare s (if e.isDynamic then .unbox e else e) p)
      (.declare s' (if e'.isDynamic then .unbox e' else e') p')
  print : ∀ {e e' p p'}, c.expr e e' → c.place p p' → c.stmt (.print e p) (.print e' p')
  nested : ∀ {b b'}, c.block b b' → c.stmt (.block b) (.block b')
  branch : ∀ {e e' a a' o o' p p'}, c.expr e e' → c.stmt a a' → Option.Rel c.stmt o o' →
    c.place p p' → c.stmt (.branch e a o p) (.branch e' a' o' p')
  loop : ∀ {e e' a a' o o' l l' m m' p p'}, c.expr e e' → c.stmt a a' → Option.Rel c.expr o o' →
    c.label l l' → c.label m m' → c.place p p' →
    c.stmt (.loop e a o l m p) (.loop e' a' o' l' m' p')
  jump : ∀ {l l' o o' p p'}, c.label l l' → Option.Rel c.part o o' → c.place p p' →
    c.stmt (.jump l o p) (.jump l' o' p')
  target : ∀ {l l' p p'}, c.label l l' → c.place p p' → c.stmt (.label l p) (.label l' p')
  block : ∀ {l l' v v' p p'}, Forall₂ c.stmt l l' → Forall₂ c.slot v v' → c.place p p' →
    c.block (.mk l v p) (.mk l' v' p')
  switch : ∀ {s s' e e' o o' p p'}, c.hidden s s' → c.part e e' → Option.Rel c.stmt o o' →
    c.place p p' → c.stmt (.block (.mk (.declare s e p :: o.toList) [s] p))
      (.block (.mk (.declare s' e' p' :: o'.toList) [s'] p'))

end Coding

lemma forall₂_toList {α β : Type} {R : α → β → Prop} {x y} (h : Option.Rel R x y) :
    Forall₂ R x.toList y.toList := by
  cases h with
  | none => exact .nil
  | some h => exact .cons h .nil

/-- The coding of like code. -/
def Coding.like (w : Likeness) : Coding where
  slotNumber := w.slots
  labelNumber := w.labels
  place := w.places
  name _ := True
  native f := f.Allowed w
  slot := Slot.Like w
  hidden := Slot.Like w
  label := Label.Like w
  expr := Expr.Like w
  part := Expr.Like w
  update := Update.Like w
  stmt := Stmt.Like w
  block := Block.Like w

lemma Likeness.lawful (w) : (Coding.like w).Lawful where
  names _ _ := trivial
  slot_eq h := ⟨h.name, h.constant⟩
  label_eq h := ⟨h.name, h.kind⟩
  newSlot _ h _ := ⟨h, rfl, rfl⟩
  newHidden h _ := ⟨h, rfl, rfl⟩
  newLabel h := ⟨h, rfl, rfl⟩
  place h := h.place
  form h := by
    cases h with
    | literal value _ => exact .literal value _ _
    | read hs _ => exact .read hs _ _
    | index hc hi _ => exact .index hc hi _ _
    | field hc hi _ => exact .field hc hi _ _
    | _ => exact .other rfl rfl
  boxed h := h.boxed
  of_part := id
  literal h := .literal _ h
  read hs hp := .read hs hp
  array h hp := .array h hp
  record h hs hp := .record (h.imp fun f f' hf => by
    obtain ⟨name, e⟩ := f
    obtain ⟨name', e'⟩ := f'
    obtain rfl : name = name' := hf.1
    exact .mk name hf.2) hs hp
  function hv hb hl hs hp := .function _ hv hb hl hs hp
  join {op} _ _ _ _ _ _ ha hb hp := by
    cases op with
    | binary op => exact .binary op ha hb hp
    | logical op => exact .logical op ha hb hp
  unary h hp := .unary _ h hp
  ternary ha hb hd hp := .ternary ha hb hd hp
  assignVariable _ hs hu hp := .assignVariable hs hu hp
  assignIndex ha hi hu hp := .assignIndex ha hi hu hp
  assignField ha hi hu hp := .assignField ha hi hu hp
  call hf hl hp := .call hf hl hp
  native hf hl hp := .native _ hf hl hp
  index ha hi hp := .index ha hi hp
  field ha hi hp := .field ha hi hp
  compare hs ha hp := .binary .equal (.read hs hp) ha hp
  set h := .set h
  combine h := .combine _ h
  step := .step _
  expression h hp := .expression h hp
  declare _ hs h hp := .declare hs h hp
  constant _ hs h hp := .declare hs (by
    rw [← h.isDynamic]
    split
    · exact .unbox h
    · exact h) hp
  print h hp := .print h hp
  nested h := .block h
  branch he ha ho hp := .branch he ha ho hp
  loop he ha ho hl hm hp := .loop he ha ho hl hm hp
  jump hl ho hp := .jump hl ho hp
  target hl hp := .label hl hp
  block hl hv hp := .mk hl hv hp
  switch hs he ho hp := .block (.mk (.cons (.declare hs he hp) (forall₂_toList ho)) (.cons hs .nil) hp)

end DynScript

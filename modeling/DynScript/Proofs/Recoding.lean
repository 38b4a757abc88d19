import DynScript.Proofs.Coding

/-!
# Recoding

Code has two things from outside of its text: the numbers of its slots and labels, which go on from
where they are, and the native functions, which come from a registry.
-/

namespace DynScript

/-- What becomes of code: the numbers of linked slots by their names, how far the others move up, and
what stands for a native function. -/
structure Recoding where
  linked : String → Nat
  slots : Nat
  labels : Nat
  natives : NativeFunction → NativeFunction

/-- A slot of the number `n` or a larger one moves up, whatever its name is. -/
def Recoding.Moves (r : Recoding) (n : Nat) : Prop :=
  1 ≤ n ∨ ∀ name, r.linked name = r.slots

section

variable (r : Recoding)

/-- A slot with its new number. -/
def Slot.recode (x : Slot) : Slot :=
  { x with id := if x.id = 0 then r.linked x.name else x.id + r.slots }

/-- A label with its new number. -/
def Label.recode (l : Label) : Label :=
  { l with id := l.id + r.labels }

/-! ### Code -/

mutual

/-- An expression with new numbers and native functions. -/
def Expr.recode : Expr → Expr
  | .literal value p => .literal value p
  | .read slot p => .read (slot.recode r) p
  | .box e => .box e.recode
  | .unbox e => .unbox e.recode
  | .array items p => .array (Expr.recodeAll items) p
  | .record fields self p => .record (Expr.recodeFields fields) (self.recode r) p
  | .function name params body exit self p =>
    .function name (params.map (·.recode r)) body.recode (exit.recode r)
      (self.map (·.recode r)) p
  | .binary op left right p => .binary op left.recode right.recode p
  | .logical op left right p => .logical op left.recode right.recode p
  | .unary op e p => .unary op e.recode p
  | .ternary condition first second p =>
    .ternary condition.recode first.recode second.recode p
  | .assignVariable slot u p => .assignVariable (slot.recode r) u.recode p
  | .assignIndex container index u p =>
    .assignIndex container.recode index.recode u.recode p
  | .assignField container key u p => .assignField container.recode key.recode u.recode p
  | .call callee arguments p => .call callee.recode (Expr.recodeAll arguments) p
  | .native name f arguments p => .native name (r.natives f) (Expr.recodeAll arguments) p
  | .index container index p => .index container.recode index.recode p
  | .field container key p => .field container.recode key.recode p

/-- Recodes a list of expressions. -/
def Expr.recodeAll : List Expr → List Expr
  | [] => []
  | e :: rest => e.recode :: Expr.recodeAll rest

/-- Recodes the fields of a record. -/
def Expr.recodeFields : List (String × Expr) → List (String × Expr)
  | [] => []
  | (name, e) :: rest => (name, e.recode) :: Expr.recodeFields rest

/-- Recodes an update. -/
def Update.recode : Update → Update
  | .set e => .set e.recode
  | .combine op e => .combine op e.recode
  | .step op => .step op

/-- Recodes a statement. -/
def Stmt.recode : Stmt → Stmt
  | .expression e p => .expression e.recode p
  | .declare slot e p => .declare (slot.recode r) e.recode p
  | .print e p => .print e.recode p
  | .block b => .block b.recode
  | .branch condition first second p =>
    .branch condition.recode first.recode (Stmt.recodeOption second) p
  | .loop condition body step exit next p =>
    .loop condition.recode body.recode (Expr.recodeOption step) (exit.recode r)
      (next.recode r) p
  | .jump target value p => .jump (target.recode r) (Expr.recodeOption value) p
  | .label target p => .label (target.recode r) p

/-- An expression under new numbers, if there is one. -/
def Expr.recodeOption : Option Expr → Option Expr
  | none => none
  | some e => some e.recode

/-- A statement under new numbers, if there is one. -/
def Stmt.recodeOption : Option Stmt → Option Stmt
  | none => none
  | some s => some s.recode

/-- Recodes a list of statements. -/
def Stmt.recodeAll : List Stmt → List Stmt
  | [] => []
  | s :: rest => s.recode :: Stmt.recodeAll rest

/-- Recodes a block. -/
def Block.recode : Block → Block
  | .mk statements slots p => .mk (Stmt.recodeAll statements) (slots.map (·.recode r)) p

end

end

variable {r : Recoding}

lemma Expr.recodeAll_eq (l) : Expr.recodeAll r l = l.map (·.recode r) := by
  induction l with
  | nil => rfl
  | cons e l ih => rw [Expr.recodeAll, ih, List.map_cons]

lemma Expr.recodeFields_eq (l) : Expr.recodeFields r l = l.map fun f => (f.1, f.2.recode r) := by
  induction l with
  | nil => rfl
  | cons f l ih => rw [Expr.recodeFields, ih, List.map_cons]

lemma Stmt.recodeAll_eq (l) : Stmt.recodeAll r l = l.map (·.recode r) := by
  induction l with
  | nil => rfl
  | cons s l ih => rw [Stmt.recodeAll, ih, List.map_cons]

lemma Stmt.recodeOption_eq (o) : Stmt.recodeOption r o = o.map (·.recode r) := by
  cases o <;> rfl

lemma Expr.recodeOption_eq (o) : Expr.recodeOption r o = o.map (·.recode r) := by
  cases o <;> rfl

@[simp] lemma Expr.place_recode : ∀ e : Expr, (e.recode r).place = e.place
  | .box e | .unbox e => place_recode e
  | .literal .. | .read .. | .array .. | .record .. | .function .. | .binary .. | .logical ..
  | .unary .. | .ternary .. | .assignVariable .. | .assignIndex .. | .assignField .. | .call ..
  | .native .. | .index .. | .field .. => rfl

@[simp] lemma Expr.isDynamic_recode : ∀ e : Expr, (e.recode r).isDynamic = e.isDynamic
  | .binary _ left right _ => by
    simp only [recode, isDynamic, isDynamic_recode left, isDynamic_recode right]
  | .unary _ e _ => by simp only [recode, isDynamic, isDynamic_recode e]
  | .index container i _ => by
    simp only [recode, isDynamic, isDynamic_recode container, isDynamic_recode i]
  | .read .. | .literal .. | .box _ | .unbox _ | .array .. | .record .. | .function ..
  | .logical .. | .ternary .. | .assignVariable .. | .assignIndex .. | .assignField ..
  | .call .. | .native .. | .field .. => rfl

lemma Expr.boxed_recode (e : Expr) : (e.recode r).boxed = e.boxed.recode r := by
  unfold Expr.boxed
  rw [isDynamic_recode]
  split <;> rfl

/-! ### The relation of code to its recoding -/

/-- Code and its recoding, with the functions that recoding leaves as they are. -/
def Recoding.coding (r : Recoding) : Coding where
  slotNumber i j := j = i + r.slots ∧ r.Moves i
  labelNumber i j := j = i + r.labels
  place p p' := p' = p
  name _ := True
  native f := r.natives f = f
  slot s s' := s' = s.recode r
  hidden s s' := s' = s.recode r
  label l l' := l' = l.recode r
  expr e e' := e' = e.recode r
  part e e' := e' = e.recode r
  update u u' := u' = u.recode r
  stmt s s' := s' = s.recode r
  block b b' := b' = b.recode r

lemma eq_map_of_forall₂ {α β : Type} {f : α → β} {l} {l'}
    (h : List.Forall₂ (fun a b => b = f a) l l') : l' = l.map f := by
  induction h with
  | nil => rfl
  | cons ha _ ih => rw [List.map_cons, ha, ih]

lemma eq_map_of_rel {α β : Type} {f : α → β} {o} {o'} (h : Option.Rel (fun a b => b = f a) o o') :
    o' = o.map f := by
  cases h with
  | none => rfl
  | some h => exact congrArg some h

lemma Slot.recode_mk {i : Nat} (hi : r.Moves i) (name) (constant : Bool) (location) :
    Slot.recode r ⟨name, constant, location, i⟩ =
      ⟨name, constant, location, i + r.slots⟩ := by
  unfold Slot.recode
  split
  · rename_i unnumbered
    dsimp only at unnumbered ⊢
    rcases hi with hi | hi
    · omega
    · rw [hi, unnumbered, Nat.zero_add]
  · rfl

lemma Recoding.lawful (r : Recoding) : r.coding.Lawful := by
  constructor
  case names => exact fun _ _ => trivial
  case of_part => exact id
  case newSlot =>
    rintro name constant p p' i _ - ⟨rfl, hi⟩ hp
    obtain rfl : p' = p := by simpa using eq_map_of_rel (f := id) hp
    exact (Slot.recode_mk hi name constant p').symm
  case newHidden =>
    rintro p p' i _ ⟨rfl, hi⟩ hp
    obtain rfl : p' = p := by simpa using eq_map_of_rel (f := id) hp
    exact (Slot.recode_mk hi "switch" false p').symm
  case place =>
    rintro e _ rfl
    exact e.place_recode
  case form =>
    rintro e _ rfl
    cases e with
    | literal value p => exact .literal value p p
    | read slot p => exact .read rfl p p
    | index a i p => exact .index rfl rfl p p
    | field a k p => exact .field rfl rfl p p
    | _ => exact .other rfl rfl
  case boxed =>
    rintro e _ rfl
    exact e.boxed_recode
  -- Recoding goes through lists and options part by part.
  case array =>
    rintro l l' p _ hl rfl
    obtain rfl := eq_map_of_forall₂ hl
    rw [← Expr.recodeAll_eq]
    rfl
  case record =>
    rintro l l' s _ p _ hl rfl rfl
    have fields : l' = l.map fun f => (f.1, f.2.recode r) :=
      eq_map_of_forall₂ (hl.imp fun f f' hf => Prod.ext hf.1.symm hf.2)
    rw [fields, ← Expr.recodeFields_eq]
    rfl
  case function =>
    rintro name v v' b _ l _ s s' p _ hv rfl rfl hs rfl
    obtain rfl := eq_map_of_forall₂ hv
    obtain rfl := eq_map_of_rel hs
    rfl
  case call =>
    rintro f _ l l' p _ rfl hl rfl
    obtain rfl := eq_map_of_forall₂ hl
    rw [← Expr.recodeAll_eq]
    rfl
  case native =>
    rintro name f l l' p _ hf hl rfl
    obtain rfl := eq_map_of_forall₂ hl
    change _ = Expr.native name (r.natives f) (Expr.recodeAll r l) _
    rw [hf, Expr.recodeAll_eq]
  case constant =>
    rintro s _ e _ p _ - rfl rfl rfl
    rw [e.isDynamic_recode]
    cases e.isDynamic <;> rfl
  case branch =>
    rintro e _ a _ o o' p _ rfl rfl ho rfl
    obtain rfl := eq_map_of_rel ho
    rw [← Stmt.recodeOption_eq]
    rfl
  case loop =>
    rintro e _ a _ o o' l _ m _ p _ rfl rfl ho rfl rfl rfl
    obtain rfl := eq_map_of_rel ho
    rw [← Expr.recodeOption_eq]
    rfl
  case jump =>
    rintro l _ o o' p _ rfl ho rfl
    obtain rfl := eq_map_of_rel ho
    rw [← Expr.recodeOption_eq]
    rfl
  case block =>
    rintro l l' v v' p _ hl hv rfl
    obtain rfl := eq_map_of_forall₂ hl
    obtain rfl := eq_map_of_forall₂ hv
    rw [← Stmt.recodeAll_eq]
    rfl
  case switch =>
    rintro s _ e _ o o' p _ rfl rfl ho rfl
    obtain rfl := eq_map_of_rel ho
    cases o <;> rfl
  case join =>
    rintro op a _ b _ p _ rfl rfl rfl
    cases op <;> rfl
  case slot_eq | label_eq =>
    rintro x _ rfl
    exact ⟨rfl, rfl⟩
  -- All else is recoded part by part, by definition.
  all_goals
    intros
    simp only [Recoding.coding] at *
    subst_vars
    rfl

end DynScript

import DynScript.Code
import Mathlib.Tactic.Lemma

/-!
# Scoping of compiled code

Compiled code names its variables by slots and its jumps by labels.  Code is well scoped when each of
them has its owner around it.
-/

namespace DynScript

open List Expr

/-! ### Sizes -/

lemma sizeOf_code :
    (∀ e, sizeOf (box e) = 1 + sizeOf e) ∧ (∀ e, sizeOf (unbox e) = 1 + sizeOf e) ∧
    (∀ l p, sizeOf (array l p) = 1 + sizeOf l + sizeOf p) ∧
    (∀ l s p, sizeOf (record l s p) = 1 + sizeOf l + sizeOf s + sizeOf p) ∧
    (∀ n l b x s p, sizeOf (function n l b x s p) =
      1 + sizeOf n + sizeOf l + sizeOf b + sizeOf x + sizeOf s + sizeOf p) ∧
    (∀ o l r p, sizeOf (binary o l r p) = 1 + sizeOf o + sizeOf l + sizeOf r + sizeOf p) ∧
    (∀ o l r p, sizeOf (logical o l r p) = 1 + sizeOf o + sizeOf l + sizeOf r + sizeOf p) ∧
    (∀ o e p, sizeOf (unary o e p) = 1 + sizeOf o + sizeOf e + sizeOf p) ∧
    (∀ c a b p, sizeOf (ternary c a b p) = 1 + sizeOf c + sizeOf a + sizeOf b + sizeOf p) ∧
    (∀ s u p, sizeOf (assignVariable s u p) = 1 + sizeOf s + sizeOf u + sizeOf p) ∧
    (∀ c k u p, sizeOf (assignIndex c k u p) = 1 + sizeOf c + sizeOf k + sizeOf u + sizeOf p) ∧
    (∀ c k u p, sizeOf (assignField c k u p) = 1 + sizeOf c + sizeOf k + sizeOf u + sizeOf p) ∧
    (∀ f l p, sizeOf (call f l p) = 1 + sizeOf f + sizeOf l + sizeOf p) ∧
    (∀ n f l p, sizeOf (native n f l p) = 1 + sizeOf n + sizeOf f + sizeOf l + sizeOf p) ∧
    (∀ c k p, sizeOf (index c k p) = 1 + sizeOf c + sizeOf k + sizeOf p) ∧
    (∀ c k p, sizeOf (field c k p) = 1 + sizeOf c + sizeOf k + sizeOf p) ∧
    (∀ e, sizeOf (Update.set e) = 1 + sizeOf e) ∧
    (∀ o e, sizeOf (Update.combine o e) = 1 + sizeOf o + sizeOf e) ∧
    (∀ e p, sizeOf (Stmt.expression e p) = 1 + sizeOf e + sizeOf p) ∧
    (∀ s e p, sizeOf (Stmt.declare s e p) = 1 + sizeOf s + sizeOf e + sizeOf p) ∧
    (∀ e p, sizeOf (Stmt.print e p) = 1 + sizeOf e + sizeOf p) ∧
    (∀ b, sizeOf (Stmt.block b) = 1 + sizeOf b) ∧
    (∀ c a b p, sizeOf (Stmt.branch c a b p) = 1 + sizeOf c + sizeOf a + sizeOf b + sizeOf p) ∧
    (∀ c a e x n p, sizeOf (Stmt.loop c a e x n p) =
      1 + sizeOf c + sizeOf a + sizeOf e + sizeOf x + sizeOf n + sizeOf p) ∧
    (∀ t e p, sizeOf (Stmt.jump t e p) = 1 + sizeOf t + sizeOf e + sizeOf p) ∧
    (∀ l s p, sizeOf (Block.mk l s p) = 1 + sizeOf l + sizeOf s + sizeOf p) := by
  simp

lemma sizeOf_lt_of_field {name : String} {e : Expr} {fields : List (String × Expr)}
    (h : (name, e) ∈ fields) : sizeOf e < sizeOf fields := by
  have := sizeOf_lt_of_mem h
  simp only [Prod.mk.sizeOf_spec] at this
  omega

lemma sizeOf_lt_of_some {α : Type} [SizeOf α] {a : α} {o : Option α} (h : a ∈ o) :
    sizeOf a < sizeOf o := by
  cases h
  simp only [Option.some.sizeOf_spec]
  omega

/-! ### Nodes -/

/-- An expression or a statement. -/
inductive Node where
  | expr (e : Expr)
  | stmt (s : Stmt)

/-- The expression in an update, if there is one. -/
def Update.nodes : Update → List Node
  | .set e | .combine _ e => [.expr e]
  | .step _ => []

/-- The nodes directly in an expression. -/
def Expr.nodes : Expr → List Node
  | .literal .. | .read .. => []
  | .box e | .unbox e | .unary _ e _ => [.expr e]
  | .array items _ | .native _ _ items _ => items.map .expr
  | .record fields _ _ => fields.map fun f => .expr f.2
  | .function _ _ body _ _ _ => [.stmt (.block body)]
  | .binary _ a b _ | .logical _ a b _ | .index a b _ | .field a b _ => [.expr a, .expr b]
  | .ternary c a b _ => [.expr c, .expr a, .expr b]
  | .assignVariable _ u _ => u.nodes
  | .assignIndex a b u _ | .assignField a b u _ => .expr a :: .expr b :: u.nodes
  | .call f items _ => .expr f :: items.map .expr

/-- The nodes directly in a statement. -/
def Stmt.nodes : Stmt → List Node
  | .expression e _ | .declare _ e _ | .print e _ => [.expr e]
  | .block b => b.statements.map .stmt
  | .branch c a b _ => .expr c :: .stmt a :: b.toList.map .stmt
  | .loop c a s _ _ _ => .expr c :: .stmt a :: s.toList.map .expr
  | .jump _ v _ => v.toList.map .expr
  | .label .. => []

namespace Node

/-- The nodes directly in a node. -/
def children : Node → List Node
  | expr e => e.nodes
  | stmt s => s.nodes

lemma sizeOf_lt_of_child {x y : Node} (hy : y ∈ x.children) : sizeOf y < sizeOf x := by
  have member {α : Type} [SizeOf α] {a : α} {l : List α} (ha : a ∈ l) := sizeOf_lt_of_mem ha
  have update {u : Update} (hu : y ∈ u.nodes) : sizeOf y ≤ sizeOf u := by
    cases u <;> simp [Update.nodes] at hu <;> simp [hu]
  cases x with
  | expr e =>
    cases e with
    | function name params body exit self place =>
      cases exit
      simp_all [children, nodes]
      omega
    | _ => simp [children, nodes] at hy ⊢ <;> grind [sizeOf_lt_of_field]
  | stmt s =>
    cases s with
    | block b =>
      cases b
      simp [children, Stmt.nodes, Block.statements] at hy ⊢
      grind
    | _ => simp [children, Stmt.nodes] at hy ⊢ <;> grind [sizeOf_lt_of_some]

lemma induct {M : Node → Prop} (h : ∀ x, (∀ y ∈ x.children, M y) → M x) (x) : M x :=
  h x fun y _ => induct h y
termination_by sizeOf x
decreasing_by exact sizeOf_lt_of_child ‹_›

end Node

/-! ### Variables -/

mutual

/-- Every variable in an expression is one of `V` or bound around it. -/
def Expr.Bound (V : List Slot) : Expr → Prop
  | .literal .. => True
  | .read slot _ => slot ∈ V
  | .box e | .unbox e => e.Bound V
  | .array items _ => ∀ e, e ∈ items → e.Bound V
  | .record fields self _ => ∀ name e, (name, e) ∈ fields → e.Bound (self :: V)
  | .function _ params body _ self _ => body.Bound (self.toList ++ params ++ V)
  | .binary _ left right _ | .logical _ left right _ => left.Bound V ∧ right.Bound V
  | .unary _ operand _ => operand.Bound V
  | .ternary condition first second _ => condition.Bound V ∧ first.Bound V ∧ second.Bound V
  | .assignVariable slot u _ => slot ∈ V ∧ u.Bound V
  | .assignIndex container key u _ | .assignField container key u _ =>
    container.Bound V ∧ key.Bound V ∧ u.Bound V
  | .call callee arguments _ => callee.Bound V ∧ ∀ e, e ∈ arguments → e.Bound V
  | .native _ _ arguments _ => ∀ e, e ∈ arguments → e.Bound V
  | .index container key _ | .field container key _ => container.Bound V ∧ key.Bound V
termination_by e => sizeOf e
decreasing_by
  all_goals simp only [sizeOf_code]
  all_goals first
    | omega
    | have := sizeOf_lt_of_mem ‹_›
      omega
    | have := sizeOf_lt_of_field ‹_›
      omega

/-- Every variable in an update is one of `V` or bound around it. -/
def Update.Bound (V : List Slot) : Update → Prop
  | .set e | .combine _ e => e.Bound V
  | .step _ => True
termination_by u => sizeOf u
decreasing_by
  all_goals simp only [sizeOf_code]
  all_goals omega

/-- Every variable in a statement is one of `V` or bound around it. -/
def Stmt.Bound (V : List Slot) : Stmt → Prop
  | .expression e _ | .print e _ => e.Bound V
  | .declare slot initial _ => slot ∈ V ∧ initial.Bound V
  | .block b => b.Bound V
  | .branch condition first second _ =>
    condition.Bound V ∧ first.Bound V ∧ ∀ s, s ∈ second → s.Bound V
  | .loop condition body step _ _ _ =>
    condition.Bound V ∧ body.Bound V ∧ ∀ e, e ∈ step → e.Bound V
  | .jump _ value _ => ∀ e, e ∈ value → e.Bound V
  | .label .. => True
termination_by s => sizeOf s
decreasing_by
  all_goals simp only [sizeOf_code]
  all_goals first
    | omega
    | have := sizeOf_lt_of_some ‹_›
      omega

/-- Every variable in a block is one of `V` or bound around it. -/
def Block.Bound (V : List Slot) : Block → Prop
  | .mk statements slots _ => ∀ s, s ∈ statements → s.Bound (slots ++ V)
termination_by b => sizeOf b
decreasing_by
  simp only [sizeOf_code]
  have := sizeOf_lt_of_mem ‹_›
  omega

end

namespace Node

/-- The slot of the variable that a node reads, assigns or declares. -/
def slot? : Node → Option Slot
  | expr (.read slot _) | expr (.assignVariable slot _ _) | stmt (.declare slot _ _) => some slot
  | _ => none

/-- The slots that a node binds around the nodes in it. -/
def bound : Node → List Slot
  | expr (.record _ slot _) => [slot]
  | expr (.function _ params _ _ self _) => self.toList ++ params
  | stmt (.block b) => b.slots
  | _ => []

/-- Every variable in a node is one of `V` or bound around it. -/
def Bound (V : List Slot) : Node → Prop
  | expr e => e.Bound V
  | stmt s => s.Bound V

end Node

section

variable {V W : List Slot}

lemma Update.bound_iff {u : Update} : u.Bound V ↔ ∀ y ∈ u.nodes, y.Bound V := by
  cases u <;> simp [Update.Bound, Update.nodes, Node.Bound]

namespace Node

variable {x : Node}

lemma bound_iff : x.Bound V ↔
    (∀ s ∈ x.slot?, s ∈ V) ∧ ∀ y ∈ x.children, y.Bound (x.bound ++ V) := by
  cases x with
  | expr e =>
    cases e <;> simp [Bound, slot?, children, bound, nodes, Expr.Bound, Stmt.Bound, Update.bound_iff]
    all_goals grind
  | stmt s =>
    cases s with
    | block b =>
      cases b
      simp [Bound, slot?, children, bound, Stmt.nodes, Stmt.Bound, Block.Bound, Block.slots, Block.statements]
    | _ => simp [Bound, slot?, children, bound, Stmt.nodes, Stmt.Bound]

lemma Bound.mono (h : V ⊆ W) (k : x.Bound V) : x.Bound W := by
  induction x using induct generalizing V W with
  | h x ih =>
    obtain ⟨slot, inside⟩ := bound_iff.1 k
    refine bound_iff.2 ⟨fun s hs => h (slot s hs), fun y hy => ?_⟩
    exact ih y hy (by grind) (inside y hy)

end Node

lemma Expr.Bound.mono {e : Expr} (h : V ⊆ W) (k : e.Bound V) : e.Bound W :=
  Node.Bound.mono (x := .expr e) h k

lemma Stmt.Bound.mono {s : Stmt} (h : V ⊆ W) (k : s.Bound V) : s.Bound W :=
  Node.Bound.mono (x := .stmt s) h k

lemma Update.Bound.mono {u : Update} (h : V ⊆ W) (k : u.Bound V) : u.Bound W :=
  Update.bound_iff.2 fun y hy => (Update.bound_iff.1 k y hy).mono h

lemma Block.Bound.mono {b : Block} (h : V ⊆ W) (k : b.Bound V) : b.Bound W := by
  have whole := Stmt.Bound.mono (s := .block b) h
  simp only [Stmt.Bound] at whole
  exact whole k

end

mutual

/-- The slots that are bound in an expression. -/
def Expr.binders : Expr → List Slot
  | .literal .. | .read .. => []
  | .box e | .unbox e => e.binders
  | .array items _ => items.flatMap fun e => e.binders
  | .record fields self _ => self :: fields.flatMap fun f => f.2.binders
  | .function _ params body _ self _ => self.toList ++ params ++ body.binders
  | .binary _ left right _ | .logical _ left right _ => left.binders ++ right.binders
  | .unary _ operand _ => operand.binders
  | .ternary condition first second _ => condition.binders ++ (first.binders ++ second.binders)
  | .assignVariable _ u _ => u.binders
  | .assignIndex container key u _ | .assignField container key u _ =>
    container.binders ++ (key.binders ++ u.binders)
  | .call callee arguments _ => callee.binders ++ arguments.flatMap fun e => e.binders
  | .native _ _ arguments _ => arguments.flatMap fun e => e.binders
  | .index container key _ | .field container key _ => container.binders ++ key.binders
termination_by e => sizeOf e
decreasing_by
  all_goals simp only [sizeOf_code]
  all_goals first
    | omega
    | have := sizeOf_lt_of_mem ‹_›
      omega
    | have := sizeOf_lt_of_field ‹_›
      omega

/-- The slots that are bound in an update. -/
def Update.binders : Update → List Slot
  | .set e | .combine _ e => e.binders
  | .step _ => []
termination_by u => sizeOf u
decreasing_by
  all_goals simp only [sizeOf_code]
  all_goals omega

/-- The slots that are bound in a statement. -/
def Stmt.binders : Stmt → List Slot
  | .expression e _ | .print e _ | .declare _ e _ => e.binders
  | .block b => b.binders
  | .branch condition first none _ => condition.binders ++ first.binders
  | .branch condition first (some second) _ =>
    condition.binders ++ (first.binders ++ second.binders)
  | .loop condition body none _ _ _ => condition.binders ++ body.binders
  | .loop condition body (some step) _ _ _ =>
    condition.binders ++ (step.binders ++ body.binders)
  | .jump _ none _ | .label .. => []
  | .jump _ (some value) _ => value.binders
termination_by s => sizeOf s
decreasing_by
  all_goals simp only [sizeOf_code, Option.some.sizeOf_spec]
  all_goals omega

/-- The slots that are bound in a block. -/
def Block.binders : Block → List Slot
  | .mk statements slots _ => slots ++ statements.flatMap fun s => s.binders
termination_by b => sizeOf b
decreasing_by
  simp only [sizeOf_code]
  have := sizeOf_lt_of_mem ‹_›
  omega

end

/-! ### Jumps -/

/-- The numbers of the labels directly among the statements of a block. -/
def Stmt.LabelAmong (statements : List Stmt) (id : Nat) : Prop :=
  ∃ target place, Stmt.label target place ∈ statements ∧ target.id = id

mutual

/-- All jumps in an expression land in it. -/
def Expr.Lands : Expr → Prop
  | .literal .. | .read .. => True
  | .box e | .unbox e => e.Lands
  | .array items _ => ∀ e, e ∈ items → e.Lands
  | .record fields _ _ => ∀ name e, (name, e) ∈ fields → e.Lands
  | .function _ _ body exit _ _ => body.Lands (· = exit.id)
  | .binary _ left right _ | .logical _ left right _ => left.Lands ∧ right.Lands
  | .unary _ operand _ => operand.Lands
  | .ternary condition first second _ => condition.Lands ∧ first.Lands ∧ second.Lands
  | .assignVariable _ u _ => u.Lands
  | .assignIndex container key u _ | .assignField container key u _ =>
    container.Lands ∧ key.Lands ∧ u.Lands
  | .call callee arguments _ => callee.Lands ∧ ∀ e, e ∈ arguments → e.Lands
  | .native _ _ arguments _ => ∀ e, e ∈ arguments → e.Lands
  | .index container key _ | .field container key _ => container.Lands ∧ key.Lands
termination_by e => sizeOf e
decreasing_by
  all_goals simp only [sizeOf_code]
  all_goals first
    | omega
    | have := sizeOf_lt_of_mem ‹_›
      omega
    | have := sizeOf_lt_of_field ‹_›
      omega

/-- All jumps in an update land in it. -/
def Update.Lands : Update → Prop
  | .set e | .combine _ e => e.Lands
  | .step _ => True
termination_by u => sizeOf u
decreasing_by
  all_goals simp only [sizeOf_code]
  all_goals omega

/-- Every jump in a statement lands in it or leads to a label with a number in `T`. -/
def Stmt.Lands (T : Nat → Prop) : Stmt → Prop
  | .expression e _ | .declare _ e _ | .print e _ => e.Lands
  | .block b => b.Lands T
  | .branch condition first second _ =>
    condition.Lands ∧ first.Lands T ∧ ∀ s, s ∈ second → s.Lands T
  | .loop condition body step exit next _ =>
    condition.Lands ∧ body.Lands (fun id => id = exit.id ∨ id = next.id ∨ T id) ∧
      ∀ e, e ∈ step → e.Lands
  | .jump target value _ => T target.id ∧ ∀ e, e ∈ value → e.Lands
  | .label .. => True
termination_by s => sizeOf s
decreasing_by
  all_goals simp only [sizeOf_code]
  all_goals first
    | omega
    | have := sizeOf_lt_of_some ‹_›
      omega

/-- Every jump in a block lands in it or leads to a label with a number in `T`. -/
def Block.Lands (T : Nat → Prop) : Block → Prop
  | .mk statements _ _ =>
    ∀ s, s ∈ statements → s.Lands fun id => Stmt.LabelAmong statements id ∨ T id
termination_by b => sizeOf b
decreasing_by
  simp only [sizeOf_code]
  have := sizeOf_lt_of_mem ‹_›
  omega

end

variable {T U : Nat → Prop}

lemma Stmt.Lands.meet {s : Stmt} {W : Nat → Prop} (h : ∀ id, T id → U id → W id)
    (k : s.Lands T) (l : s.Lands U) : s.Lands W := by
  suffices all : ∀ x s, x = Node.stmt s → ∀ {T U W : Nat → Prop}, (∀ id, T id → U id → W id) →
      s.Lands T → s.Lands U → s.Lands W from all _ s rfl h k l
  intro x
  induction x using Node.induct with
  | h x ih =>
    rintro s rfl T U W h k l
    have child {s' : Stmt} (hs : .stmt s' ∈ s.nodes) := @ih (.stmt s') hs s' rfl
    cases s with
    | block b =>
      obtain ⟨statements, slots, place⟩ := b
      simp only [Stmt.Lands, Block.Lands] at k l ⊢
      exact fun s hs => child (mem_map_of_mem hs) (fun id => by grind) (k s hs) (l s hs)
    | branch condition first second =>
      simp only [Stmt.Lands] at k l ⊢
      exact ⟨k.1, child (by simp [Stmt.nodes]) h k.2.1 l.2.1, fun s hs =>
        child (by simp [Stmt.nodes, Option.mem_def.1 hs]) h (k.2.2 s hs) (l.2.2 s hs)⟩
    | loop condition body step =>
      simp only [Stmt.Lands] at k l ⊢
      exact ⟨k.1, child (by simp [Stmt.nodes]) (fun id => by grind) k.2.1 l.2.1, k.2.2⟩
    | jump target value =>
      simp only [Stmt.Lands] at k l ⊢
      exact ⟨h _ k.1 l.1, k.2⟩
    | _ =>
      simp only [Stmt.Lands] at k ⊢
      try exact k

lemma Block.Lands.meet {b : Block} {W : Nat → Prop} (h : ∀ id, T id → U id → W id)
    (k : b.Lands T) (l : b.Lands U) : b.Lands W := by
  have whole := Stmt.Lands.meet (s := .block b) h
  simp only [Stmt.Lands] at whole
  exact whole k l

lemma Stmt.Lands.mono (h : ∀ id, T id → U id) {s : Stmt} (k : s.Lands T) : s.Lands U :=
  k.meet (fun id a _ => h id a) k

lemma Block.Lands.mono (h : ∀ id, T id → U id) {b : Block} (k : b.Lands T) : b.Lands U :=
  k.meet (fun id a _ => h id a) k

/-! ### Boxes -/

namespace Expr

variable {e : Expr}

@[simp] lemma bound_boxed {V} : e.boxed.Bound V ↔ e.Bound V := by
  unfold boxed
  split <;> simp [Expr.Bound]

@[simp] lemma binders_boxed : e.boxed.binders = e.binders := by
  unfold boxed
  split <;> simp [Expr.binders]

@[simp] lemma lands_boxed : e.boxed.Lands ↔ e.Lands := by
  unfold boxed
  split <;> simp [Expr.Lands]

end Expr

/-! ### Pieces of code -/

/-- What is made of code: the scoping of all the code in it. -/
class Code (α : Type) where
  Bound : List Slot → α → Prop
  binders : α → List Slot
  Lands : (Nat → Prop) → α → Prop
  bound_mono : ∀ {V W : List Slot} {a : α}, V ⊆ W → Bound V a → Bound W a
  lands_mono : ∀ {T U : Nat → Prop} {a : α}, (∀ id, T id → U id) → Lands T a → Lands U a

namespace Code

instance : Code Expr where
  Bound := Expr.Bound
  binders := Expr.binders
  Lands _ := Expr.Lands
  bound_mono h k := k.mono h
  lands_mono _ := id

instance : Code Update where
  Bound := Update.Bound
  binders := Update.binders
  Lands _ := Update.Lands
  bound_mono h k := k.mono h
  lands_mono _ := id

instance : Code Stmt where
  Bound := Stmt.Bound
  binders := Stmt.binders
  Lands := Stmt.Lands
  bound_mono h k := k.mono h
  lands_mono h k := k.mono h

instance : Code Block where
  Bound := Block.Bound
  binders := Block.binders
  Lands := Block.Lands
  bound_mono h k := k.mono h
  lands_mono h k := k.mono h

/-- No code at all. -/
abbrev none (α : Type) : Code α where
  Bound _ _ := True
  binders _ := []
  Lands _ _ := True
  bound_mono _ := id
  lands_mono _ := id

instance : Code Unit := none Unit
instance : Code String := none String

variable {α β : Type} [Code α] [Code β]

instance : Code (α × β) where
  Bound V p := Bound V p.1 ∧ Bound V p.2
  binders p := binders p.1 ++ binders p.2
  Lands T p := Lands T p.1 ∧ Lands T p.2
  bound_mono h k := ⟨bound_mono h k.1, bound_mono h k.2⟩
  lands_mono h k := ⟨lands_mono h k.1, lands_mono h k.2⟩

instance : Code (List α) where
  Bound V l := ∀ a, a ∈ l → Bound V a
  binders l := l.flatMap binders
  Lands T l := ∀ a, a ∈ l → Lands T a
  bound_mono h k a ha := bound_mono h (k a ha)
  lands_mono h k a ha := lands_mono h (k a ha)

instance : Code (Option α) where
  Bound V o := ∀ a, a ∈ o → Bound V a
  binders o := o.toList.flatMap binders
  Lands T o := ∀ a, a ∈ o → Lands T a
  bound_mono h k a ha := bound_mono h (k a ha)
  lands_mono h k a ha := lands_mono h (k a ha)

end Code

end DynScript

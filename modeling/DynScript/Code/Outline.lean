import DynScript.Code

/-!
# Outlines of compiled code

The nodes of a program in the order in which they are written, each with its depth, its name,
whether it is dynamic, and its place.
-/

namespace DynScript

/-- A line of an outline. -/
structure OutlineLine where
  depth : Nat
  node : String
  dynamic : Bool := false
  place : Location

mutual

/-- The outline of an expression at the given depth. -/
def Expr.outline (depth : Nat) (e : Expr) : List OutlineLine :=
  let line (node : String) : OutlineLine := ⟨depth, node, e.isDynamic, e.place⟩
  match e with
  | .literal .. => [line "<Literal literal>"]
  | .read .. => [line "<VariableRef variable>"]
  | .box inner => line "<Box box>" :: inner.outline (depth + 1)
  | .unbox inner => line "<Unbox unbox>" :: inner.outline (depth + 1)
  | .array items _ => line "<ArrayLiteral array>" :: Expr.outlines (depth + 1) items
  | .record fields _ _ => line "<RecordLiteral record>" :: Expr.fieldOutlines (depth + 1) fields
  | .function _ _ body _ _ _ => line "<FunctionLiteral function>" :: body.outline (depth + 1)
  | .binary _ left right _ =>
    line "<BinaryOp binary_op>" :: left.outline (depth + 1) ++ right.outline (depth + 1)
  | .logical _ left right _ =>
    line "<LogicalOp logical_op>" :: left.outline (depth + 1) ++ right.outline (depth + 1)
  | .unary _ operand _ => line "<UnaryOp unary_op>" :: operand.outline (depth + 1)
  | .ternary condition first second _ =>
    line "<Ternary ternary>" :: condition.outline (depth + 1) ++ first.outline (depth + 1) ++
      second.outline (depth + 1)
  | .assignVariable _ update _ =>
    line "<AssignVariable assign_variable>" :: update.outline (depth + 1)
  | .assignIndex container index update _ =>
    line "<AssignIndex assign_index>" :: container.outline (depth + 1) ++
      index.outline (depth + 1) ++ update.outline (depth + 1)
  | .assignField container key update _ =>
    line "<AssignField assign_field>" :: container.outline (depth + 1) ++
      key.outline (depth + 1) ++ update.outline (depth + 1)
  | .call callee arguments _ =>
    line "<Call call>" :: callee.outline (depth + 1) ++ Expr.outlines (depth + 1) arguments
  | .native _ _ arguments _ => line "<NativeCall native_call>" :: Expr.outlines (depth + 1) arguments
  | .index container index _ =>
    line "<Index index>" :: container.outline (depth + 1) ++ index.outline (depth + 1)
  | .field container key _ =>
    line "<Field field>" :: container.outline (depth + 1) ++ key.outline (depth + 1)

/-- The outline of expressions. -/
def Expr.outlines (depth : Nat) : List Expr → List OutlineLine
  | [] => []
  | e :: rest => e.outline depth ++ Expr.outlines depth rest

/-- The outline of fields. -/
def Expr.fieldOutlines (depth : Nat) : List (String × Expr) → List OutlineLine
  | [] => []
  | (_, e) :: rest => e.outline depth ++ Expr.fieldOutlines depth rest

/-- The outline of an update. -/
def Update.outline (depth : Nat) : Update → List OutlineLine
  | .set value | .combine _ value => value.outline depth
  | .step _ => []

/-- The outline of a statement at the given depth. -/
def Stmt.outline (depth : Nat) (s : Stmt) : List OutlineLine :=
  let line (node : String) : OutlineLine := ⟨depth, node, false, s.place⟩
  match s with
  | .expression e _ => line "<ExpressionStatement expression_statement>" :: e.outline (depth + 1)
  | .declare _ initial _ => line "<Declare declare>" :: initial.outline (depth + 1)
  | .print e _ => line "<Print print>" :: e.outline (depth + 1)
  | .block b => b.outline depth
  | .branch condition first second _ =>
    line "<If if>" :: condition.outline (depth + 1) ++ first.outline (depth + 1) ++
      match second with
      | some s => s.outline (depth + 1)
      | none => []
  | .loop condition body step _ _ _ =>
    line "<Loop loop>" :: condition.outline (depth + 1) ++
      (match step with
      | some e =>
        ⟨depth + 1, "<ExpressionStatement expression_statement>", false, e.place⟩ ::
          e.outline (depth + 2)
      | none => []) ++
      body.outline (depth + 1)
  | .jump _ value _ =>
    line "<Jump jump>" :: match value with
      | some e => e.outline (depth + 1)
      | none => []
  | .label .. => [line "<LabelPlacement label>"]

/-- The outline of statements. -/
def Stmt.outlines (depth : Nat) : List Stmt → List OutlineLine
  | [] => []
  | s :: rest => s.outline depth ++ Stmt.outlines depth rest

/-- The outline of a block. -/
def Block.outline (depth : Nat) : Block → List OutlineLine
  | .mk statements _ place =>
    ⟨depth, "<Block block>", false, place⟩ :: Stmt.outlines (depth + 1) statements

end

/-- The outline of a program. -/
def Program.outline (p : Program) : List OutlineLine :=
  ⟨0, "<Program program>", false, p.body.place⟩ :: p.body.outline 1

end DynScript

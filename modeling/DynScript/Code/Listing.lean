import DynScript.Code
import DynScript.Text.Layout

/-!
# Listings of compiled code

The text of compiled code, with slots and labels shown with their numbers and everything that was
implicit in the source spelled out.  The statements of a block and the parts of a branch or a loop
are set in.
-/

namespace DynScript

open Text (Layout)
open Text.Layout (text joined)

mutual

/-- The layout of an expression. -/
def Expr.layout : Expr → Layout
  | .literal value _ => text value.listing
  | .read slot _ => text slot.text
  | .box inner => text "box(" ++ inner.layout ++ text ")"
  | .unbox inner => text "unbox(" ++ inner.layout ++ text ")"
  | .array items _ => text "[" ++ joined ", " (Expr.layouts items) ++ text "]"
  | .record fields _ _ => text "\x7b" ++ joined ", " (Expr.fieldLayouts fields) ++ text "\x7d"
  | .function name params body _ _ _ =>
    let shown := ", ".intercalate (params.map Slot.text)
    text s!"fun {name}({shown}) " ++ body.layout
  | .binary op left right _ =>
    text "(" ++ left.layout ++ text s!" {op.symbol} " ++ right.layout ++ text ")"
  | .logical op left right _ =>
    text "(" ++ left.layout ++ text s!" {op.symbol} " ++ right.layout ++ text ")"
  | .unary op operand _ => text s!"({op.symbol}" ++ operand.layout ++ text ")"
  | .ternary condition first second _ =>
    text "(" ++ condition.layout ++ text " ? " ++ first.layout ++ text " : " ++ second.layout ++
      text ")"
  | .assignVariable slot update _ => update.layout (text slot.text)
  | .assignIndex container index update _ =>
    update.layout (container.layout ++ text "[" ++ index.layout ++ text "]")
  | .assignField container key update _ =>
    update.layout (container.layout ++ text ".@" ++ key.layout)
  | .call callee arguments _ =>
    callee.layout ++ text "(" ++ joined ", " (Expr.layouts arguments) ++ text ")"
  | .native name _ arguments _ =>
    text s!"${name}(" ++ joined ", " (Expr.layouts arguments) ++ text ")"
  | .index container index _ => container.layout ++ text "[" ++ index.layout ++ text "]"
  | .field container (.literal (.text name) _) _ => container.layout ++ text s!".{name}"
  | .field container key _ => container.layout ++ text ".@" ++ key.layout

/-- The layouts of expressions. -/
def Expr.layouts : List Expr → List Layout
  | [] => []
  | e :: rest => e.layout :: Expr.layouts rest

/-- The layouts of fields. -/
def Expr.fieldLayouts : List (String × Expr) → List Layout
  | [] => []
  | (name, e) :: rest => (text s!"{name}: " ++ e.layout) :: Expr.fieldLayouts rest

/-- The listing of an assignment to a target with the given listing. -/
def Update.layout (target : Layout) : Update → Layout
  | .set value => target ++ text " = " ++ value.layout
  | .combine op value => target ++ text s!" {op.symbol}= " ++ value.layout
  | .step op => text op.symbol ++ target

/-- The layout of a statement. -/
def Stmt.layout : Stmt → Layout
  | .expression e _ => e.layout ++ text ";"
  | .declare slot initial _ =>
    let word := if slot.constant then "let" else "var"
    text s!"{word} {slot.text} = " ++ initial.layout ++ text ";"
  | .print e _ => text "print " ++ e.layout ++ text ";"
  | .block b => b.layout
  | .branch condition first second _ =>
    let shown := text "if " ++ condition.layout ++ text "\n" ++ first.layout.deeper
    match second with
    | some s => shown ++ text "\nelse\n" ++ s.layout.deeper
    | none => shown
  | .loop condition body step _ _ _ =>
    let head := text "loop (" ++ condition.layout
    let head := match step with
      | some e => head ++ text "; " ++ e.layout ++ text ";"
      | none => head
    head ++ text ")\n" ++ body.layout.deeper
  | .jump target value _ =>
    if target.kind = .user then text s!"goto {target.text};"
    else match value with
      | some e => text s!"{target.kind.word} " ++ e.layout ++ text ";"
      | none => text s!"{target.kind.word};"
  | .label target _ => text s!"label {target.text};"

/-- The layouts of statements. -/
def Stmt.layouts : List Stmt → List Layout
  | [] => []
  | s :: rest => s.layout :: Stmt.layouts rest

/-- The layout of a block. -/
def Block.layout : Block → Layout
  | .mk statements slots _ =>
    let shown := ", ".intercalate (slots.map Slot.text)
    let head := if slots.isEmpty then text "block" else text s!"block [{shown}]"
    if statements.isEmpty then head ++ text " \x7b\x7d"
    else
      head ++ text " \x7b\n" ++ joined "\n" ((Stmt.layouts statements).map (·.deeper)) ++
        text "\n\x7d"

end

/-- The listing of a program. -/
def Program.listing (p : Program) : String :=
  (text s!"program {p.file}\n" ++ p.body.layout).render

end DynScript

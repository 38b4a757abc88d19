import DynScript.Native
import DynScript.Operator
import DynScript.Scope

/-!
# Compiled code

The form of a script in which every name has been resolved: variables are slots and jumps lead to
labels.  Every expression has a place in the source.

An expression is *dynamic* when it always evaluates to a boxed value.
-/

namespace DynScript

mutual

/-- Expressions. -/
inductive Expr where
  | literal (value : Constant) (place : Location)
  | read (slot : Slot) (place : Location)
  | box (inner : Expr)
  | unbox (inner : Expr)
  | array (items : List Expr) (place : Location)
  | record (fields : List (String × Expr)) (self : Slot) (place : Location)
  | function (name : String) (params : List Slot) (body : Block) (exit : Label)
      (self : Option Slot) (place : Location)
  | binary (op : BinaryOp) (left right : Expr) (place : Location)
  | logical (op : LogicalOp) (left right : Expr) (place : Location)
  | unary (op : UnaryOp) (operand : Expr) (place : Location)
  | ternary (condition first second : Expr) (place : Location)
  | assignVariable (slot : Slot) (update : Update) (place : Location)
  | assignIndex (container index : Expr) (update : Update) (place : Location)
  | assignField (container key : Expr) (update : Update) (place : Location)
  | call (callee : Expr) (arguments : List Expr) (place : Location)
  | native (name : String) (function : NativeFunction) (arguments : List Expr) (place : Location)
  | index (container index : Expr) (place : Location)
  | field (container key : Expr) (place : Location)

/-- What an assignment stores: a value, the old value combined with another one, or the next or
previous value. -/
inductive Update where
  | set (value : Expr)
  | combine (op : BinaryOp) (value : Expr)
  | step (op : UnaryOp)

/-- Statements. -/
inductive Stmt where
  | expression (e : Expr) (place : Location)
  | declare (slot : Slot) (initial : Expr) (place : Location)
  | print (e : Expr) (place : Location)
  | block (b : Block)
  | branch (condition : Expr) (first : Stmt) (second : Option Stmt) (place : Location)
  | loop (condition : Expr) (body : Stmt) (step : Option Expr) (exit next : Label)
      (place : Location)
  | jump (target : Label) (value : Option Expr) (place : Location)
  | label (target : Label) (place : Location)

/-- A sequence of statements with the variables declared in it. -/
inductive Block where
  | mk (statements : List Stmt) (slots : List Slot) (place : Location)

end

instance : Inhabited Block := ⟨.mk [] [] default⟩
instance : Inhabited Stmt := ⟨.block default⟩
instance : Inhabited Expr := ⟨.literal .null default⟩
instance : Inhabited Update := ⟨.set default⟩

namespace Block

/-- The statements of a block. -/
def statements : Block → List Stmt
  | mk statements _ _ => statements

/-- The variables declared directly in a block; each time it is entered they are made anew. -/
def slots : Block → List Slot
  | mk _ slots _ => slots

/-- The place of a block. -/
def place : Block → Location
  | mk _ _ place => place

/-- The statements after the declaration of a label. -/
def afterLabel (target : Label) : List Stmt → Option (List Stmt)
  | [] => none
  | .label l _ :: rest => if l.id = target.id then some rest else afterLabel target rest
  | _ :: rest => afterLabel target rest

/-- The statements at which a jump to a label of this block goes on, if it is one of this block. -/
def resumeAt (b : Block) (target : Label) : Option (List Stmt) :=
  afterLabel target b.statements

end Block

namespace Expr

/-- The place of an expression. -/
def place : Expr → Location
  | literal _ p | read _ p | array _ p | record _ _ p | function _ _ _ _ _ p | binary _ _ _ p
  | logical _ _ _ p | unary _ _ p | ternary _ _ _ p | assignVariable _ _ p | assignIndex _ _ _ p
  | assignField _ _ _ p | call _ _ p | native _ _ _ p | index _ _ p | field _ _ p => p
  | box e | unbox e => e.place

/-- Whether an expression always evaluates to a boxed value. -/
def isDynamic : Expr → Bool
  | literal .. | unbox _ | logical .. => false
  | read slot _ => !slot.constant
  | binary _ left right _ => left.isDynamic || right.isDynamic
  | unary _ operand _ => operand.isDynamic
  | index container i _ => container.isDynamic || i.isDynamic
  | _ => true

/-- Wraps an expression in a box unless it is dynamic. -/
def boxed (e : Expr) : Expr :=
  if e.isDynamic then e else .box e

end Expr

/-- The place of a statement. -/
def Stmt.place : Stmt → Location
  | .expression _ p | .declare _ _ p | .print _ p | .branch _ _ _ p | .loop _ _ _ _ _ p
  | .jump _ _ p | .label _ p => p
  | .block b => b.place

/-- A compiled script; the variables of its body are the global ones. -/
structure Program where
  body : Block
  file : String
  deriving Inhabited

end DynScript

import DynScript.Heap

/-!
# The text of values

The form in which scripts print values.  A text stands for itself; inside a container it is put
between quotation marks.  A container that is met again inside itself is only indicated, so the text
of a value is finite even when the value is not.
-/

namespace DynScript

/-- The kind of a value, if the language has one for it. -/
def Value.kind : Value → Except Fault Kind
  | .boxed d _ | .raw d => .ok d.kind
  | .alien (.integer _) => .ok .number
  | .alien (.tuple _) => .error (.unknownHostValue "tuple")
  | .alien (.function _ type) => .error (.unknownHostValue type)
  | .alien (.object type) => .error (.unknownHostValue type)

/-- A text in quotation marks. -/
def quoteText (s : String) : String :=
  String.ofList ('"' :: (s.toList.flatMap fun c =>
    if c = '\\' || c = '"' then ['\\', c] else [c]) ++ ['"'])

/-- An array or a record. -/
inductive Container where
  | array (ref : Ref)
  | record (ref : Ref)
  deriving DecidableEq, Repr

/-- The container that a datum refers to. -/
def Datum.container? : Datum → Option Container
  | .array r => some (.array r)
  | .record r => some (.record r)
  | _ => none

/-- How a container is abbreviated. -/
def Container.ellipsis : Container → String
  | .array _ => "[...]"
  | .record _ => "\x7b...\x7d"

/-- The text of a host value that the language has no kind for; only integers have one. -/
def Alien.text : Alien → Except Fault String
  | .integer n =>
    match Number.ofInt? n with
    | some x => return Number.text x
    | none => throw .integerTooLarge
  | a => do
    let _ ← (Value.alien a).kind
    return ""

namespace Heap

/-- The text of a datum that holds no other values. -/
def scalarText (h : Heap) (nested : Bool) : Datum → String
  | .null => "null"
  | .bool b => if b then "true" else "false"
  | .number x => Number.text x
  | .string s => if nested then quoteText s else s
  | .callable r => (h.function r).text
  | .array _ | .record _ => ""

/-- The text of a container, given the text of each of its parts. -/
def contentText (h : Heap) (part : Value → Except Fault String) : Container →
    Except Fault String
  | .array r => do
    let items ← (h.array r).toList.mapM part
    return "[" ++ ", ".intercalate items ++ "]"
  | .record r => do
    let fields ← (h.record r).fields.mapM fun f => do
      return f.1.text ++ ": " ++ (← part f.2)
    return "\x7b" ++ ", ".intercalate fields ++ "\x7d"

/-- The text of a value inside the containers of `path`; `depth` bounds the number of containers
that are not on the path yet. -/
def textWithin (h : Heap) (depth : Nat) (path : List Container) (nested : Bool) (v : Value) :
    Except Fault String :=
  match v with
  | .alien a => a.text
  | .boxed d _ | .raw d =>
    match d.container? with
    | none => return h.scalarText nested d
    | some c =>
      match depth with
      | 0 => return c.ellipsis
      | depth + 1 =>
        if path.contains c then return c.ellipsis
        else h.contentText (textWithin h depth (c :: path) true) c

/-- The text of a value. -/
def text (h : Heap) (v : Value) : Except Fault String :=
  h.textWithin (h.containers + 1) [] false v

/-- The text of a value as it stands inside a container. -/
def quotedText (h : Heap) (v : Value) : Except Fault String :=
  h.textWithin (h.containers + 1) [] true v

/-- The form in which the host sees a value: the kind and text of a boxed one, and a raw one in the
host's own notation for constants. -/
def inspected (h : Heap) (v : Value) : Except Fault String := do
  match v with
  | .boxed d _ =>
    let shown ← h.quotedText v
    return s!"DynamicValue({d.kind.word}, {shown})"
  | .raw .null => return "None"
  | .raw (.bool b) => return if b then "True" else "False"
  | .raw (.number x) => return Number.literal x
  | .raw (.string s) => return Text.quoted s
  | v => h.quotedText v

end Heap

end DynScript

/-!
# Places in a source text

Lines and columns count from one; a column is a number of characters, and a line feed starts a new
line.
-/

namespace DynScript

/-- A line and a column. -/
structure Position where
  line : Nat := 1
  column : Nat := 1
  deriving DecidableEq, Repr, Inhabited

/-- The position behind a character. -/
def Position.next (p : Position) (c : Char) : Position :=
  if c = '\n' then ⟨p.line + 1, 1⟩ else ⟨p.line, p.column + 1⟩

/-- The position behind some text. -/
def Position.after (p : Position) (cs : List Char) : Position :=
  cs.foldl Position.next p

@[simp] theorem Position.after_nil (p : Position) : p.after [] = p := rfl

@[simp] theorem Position.after_cons (p : Position) (c cs) :
    p.after (c :: cs) = (p.next c).after cs := rfl

@[simp] theorem Position.after_append (p : Position) (cs ds) :
    p.after (cs ++ ds) = (p.after cs).after ds := List.foldl_append

/-- A position in a file. -/
structure Location where
  file : String
  line : Nat
  column : Nat
  deriving DecidableEq, Repr, Inhabited

/-- A position as a place. -/
def Position.inFile (p : Position) (file : String) : Location :=
  ⟨file, p.line, p.column⟩

/-- The form in which a diagnostic points to a place. -/
def Location.text (l : Location) : String :=
  s!"{l.file}:{l.line}:{l.column}"

end DynScript

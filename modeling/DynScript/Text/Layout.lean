import DynScript.Text.Lines

/-!
# Layouts

Text whose parts are set in by levels, two blanks a level.  A layout is a sequence of pieces, each with
its level; a line is set in by the level of its first character.
-/

namespace DynScript.Text

/-- A text at a level of indentation. -/
structure Piece where
  level : Nat
  text : String

/-- A text with parts on levels of their own: what it puts in front of further pieces when it starts
at a level. -/
structure Layout where
  pieces : Nat → List Piece → List Piece

namespace Layout

/-- The layout of a text. -/
def text (s : String) : Layout :=
  ⟨fun level rest => ⟨level, s⟩ :: rest⟩

/-- One layout behind another. -/
def append (a b : Layout) : Layout :=
  ⟨fun level rest => a.pieces level (b.pieces level rest)⟩

instance : Append Layout := ⟨append⟩

/-- A layout set in. -/
def deeper (a : Layout) : Layout :=
  ⟨fun level rest => a.pieces (level + 1) rest⟩

/-- Layouts with a text between each two of them. -/
def joined (between : String) : List Layout → Layout
  | [] => ⟨fun _ rest => rest⟩
  | [a] => a
  | a :: b :: rest => a ++ text between ++ joined between (b :: rest)

/-- What has been written of a layout, whether the next character starts a line, and whether the
break before it was a carriage return. -/
structure Page where
  written : String := ""
  lineStart : Bool := false
  afterReturn : Bool := false

/-- Writes a character. -/
def Page.put (level : Nat) (p : Page) (c : Char) : Page :=
  if level = 0 then ⟨p.written.push c, isLineBreak c, false⟩
  else if p.afterReturn && c = '\n' then { p with afterReturn := false }
  else
    let before := if p.lineStart then p.written.pushn ' ' (2 * level) else p.written
    if isLineBreak c then ⟨before.push '\n', true, c = '\r'⟩ else ⟨before.push c, false, false⟩

/-- Writes a piece. -/
def Page.write (p : Page) (piece : Piece) : Page :=
  piece.text.foldl (Page.put piece.level) p

/-- The text of a layout. -/
def render (a : Layout) : String :=
  ((a.pieces 0 []).foldl Page.write {}).written

end Layout

end DynScript.Text

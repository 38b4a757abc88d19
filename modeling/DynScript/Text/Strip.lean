import DynScript.Text.Ranges

/-!
# Blanks around a text

A character is blank when it is one of the separators of Unicode 14 or a control that separates
lines, fields or groups.
-/

namespace DynScript.Text

/-- The white space. -/
def blankStretches : List Nat :=
  [9, 5, 14, 5, 100, 1, 26, 1, 5599, 1, 2431, 11, 29, 2, 5, 1, 47, 1, 4000, 1]

/-- Whether a character is white space. -/
def isSpace (c : Char) : Bool :=
  inStretches blankStretches c.toNat

/-- A text without space at its ends. -/
def strip (s : String) : String :=
  String.ofList ((s.toList.dropWhile isSpace).reverse.dropWhile isSpace).reverse

end DynScript.Text

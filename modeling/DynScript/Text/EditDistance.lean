/-!
# Edit distance

The least number of insertions, deletions and substitutions of single characters that turn one
text into another, computed row by row: after the characters `s` of the source the row holds the
distances from `s` to every initial part of the target, the empty one first.
-/

namespace DynScript.Text

/-- The cells of the next row for the source character `c`, after the cell `left`: `target` holds
the target characters still to come and `row` the previous row from the cell above `left` on. -/
def rowAfter (c : Char) : Nat → List Char → List Nat → List Nat
  | left, d :: target, diagonal :: above :: row =>
    let cell := min (min (above + 1) (left + 1)) (diagonal + if c = d then 0 else 1)
    cell :: rowAfter c cell target (above :: row)
  | _, _, _ => []

/-- The next row of the table. -/
def nextRow (target : List Char) (row : List Nat) (c : Char) : List Nat :=
  match row with
  | [] => []
  | first :: _ => (first + 1) :: rowAfter c (first + 1) target row

/-- The last cell of the table. -/
def lastCell (source target : List Char) : Nat :=
  (source.foldl (nextRow target) (List.range (target.length + 1))).getLastD 0

/-- The edit distance between two texts.  The rows are as long as the shorter one. -/
def editDistance (a b : List Char) : Nat :=
  if a.length < b.length then lastCell b a else lastCell a b

end DynScript.Text

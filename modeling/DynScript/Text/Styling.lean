/-!
# Style sequences

Terminals take a sequence of the form escape, `[`, digits and `;` and `?`, letter as an order to
change the style of the text that follows.  A program that does not write to a terminal takes such
sequences out of what it writes.
-/

namespace DynScript.Text

/-- Whether `c` can stand between the opening and the letter of a style sequence. -/
def isStyleParameter (c : Char) : Bool :=
  c.isDigit || c = ';' || c = '?'

/-- What follows the style sequence that `cs` starts with, if it starts with one. -/
def afterStyle? : List Char → Option (List Char)
  | '\x1b' :: '[' :: rest =>
    match rest.dropWhile isStyleParameter with
    | c :: rest => if c.isAlpha then some rest else none
    | [] => none
  | _ => none

theorem length_lt_of_afterStyle {cs rest} (h : afterStyle? cs = some rest) :
    rest.length < cs.length := by
  unfold afterStyle? at h
  split at h
  · next tail =>
    have bound := (List.dropWhile_suffix (l := tail) isStyleParameter).length_le
    split at h
    · next c after found =>
      rw [found] at bound
      split at h
      · cases h
        simp only [List.length_cons] at bound ⊢
        omega
      · contradiction
    · contradiction
  · contradiction

/-- Takes the style sequences out of a text, from left to right; what closes up then is kept even
when it looks like one. -/
def unstyledChars (cs : List Char) : List Char :=
  match _ : afterStyle? cs with
  | some rest => unstyledChars rest
  | none =>
    match cs with
    | [] => []
    | c :: cs => c :: unstyledChars cs
termination_by cs.length
decreasing_by
  · exact length_lt_of_afterStyle ‹_›
  · simp

@[inherit_doc unstyledChars]
def unstyled (s : String) : String :=
  String.ofList (unstyledChars s.toList)

end DynScript.Text

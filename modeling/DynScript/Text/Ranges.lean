/-!
# Sets of code points

A character property is kept by the lengths of its stretches: how many code points in a row lack it,
how many then have it, and so on in turn, from the code point 0 on.
-/

namespace DynScript.Text

/-- Whether the code point `n` has the property with the given `stretches`. -/
def inStretches : (stretches : List Nat) → (n : Nat) → Bool
  | lacking :: having :: rest, n =>
    if n < lacking then false
    else if n < lacking + having then true
    else inStretches rest (n - (lacking + having))
  | _, _ => false

end DynScript.Text

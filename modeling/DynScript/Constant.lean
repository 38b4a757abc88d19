import DynScript.Number.Text
import DynScript.Text.Quoted

/-!
# Constants

The values that a script can write down: null, the two truth values, numbers and texts.
-/

namespace DynScript

/-- The constants. -/
inductive Constant where
  | null
  | bool (b : Bool)
  | number (x : Float)
  | text (s : String)
  deriving Repr, Inhabited

/-- The form in which program listings show a constant. -/
def Constant.listing : Constant → String
  | .null => "null"
  | .bool b => if b then "true" else "false"
  | .number x => Number.literal x
  | .text s => Text.quoted s

end DynScript

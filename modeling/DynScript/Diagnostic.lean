import DynScript.Location
import DynScript.Text.UpperCase

/-!
# Diagnostics

What every phase reports about a script: a message with a place, a code, a help line and
suggestions.  The codes of the phases start with `L` (scanning), `S` (scopes), `P` (parsing) and
`R` (running).
-/

namespace DynScript

/-- A report about a script.  The severity is `error`, `warning`, `info` or `hint`. -/
structure Diagnostic where
  message : String
  location : Option Location := none
  severity : String := "error"
  code : Option String := none
  help : Option String := none
  suggestions : List String := []
  deriving DecidableEq, Repr, Inhabited

namespace Diagnostic

/-- The text of a diagnostic. -/
def text (d : Diagnostic) : String :=
  let head := s!"{Text.upper d.severity}: {d.message}\n"
  let place := match d.location with
    | some l => s!"  --> {l.text}\n"
    | none => ""
  let help := match d.help with
    | some h => if h.isEmpty then "" else s!"  help: {h}\n"
    | none => ""
  let suggestions :=
    if d.suggestions.isEmpty then ""
    else "  suggestions:\n" ++ String.join (d.suggestions.map fun s => s!"    - {s}\n")
  head ++ place ++ help ++ suggestions

/-- The titles of the codes. -/
def titles : List (String × String) :=
  [("L001", "Unexpected character"),
   ("L002", "Unterminated string literal"),
   ("L003", "Invalid escape sequence"),
   ("L004", "Unterminated block comment"),
   ("S001", "Variable already declared in this scope"),
   ("S002", "Label already declared in this scope"),
   ("S003", "Cannot step out of the root scope"),
   ("P001", "Expected token not found"),
   ("P002", "Expected expression"),
   ("P003", "Invalid assignment target"),
   ("P004", "Undeclared identifier"),
   ("P005", "Jump outside of its construct"),
   ("P006", "Undefined label"),
   ("P007", "Unknown native method"),
   ("P008", "Malformed declaration"),
   ("P009", "Parsing canceled due to strict mode"),
   ("R000", "Runtime error"),
   ("R001", "Uncallable object"),
   ("R002", "Too few arguments"),
   ("R003", "Index out of range"),
   ("R004", "Missing record field"),
   ("R005", "Incompatible value kind"),
   ("R006", "Call depth exceeded")]

/-- The title of a code. -/
def title? (code : String) : Option String :=
  titles.lookup code

/-- One line for each distinct code, in the order of the codes, with its title and the number of
its occurrences; what has no code is left out. -/
def summary (codes : List (Option String)) : List String :=
  let present := (codes.filterMap id).filter (!·.isEmpty)
  let distinct := present.eraseDups.mergeSort (· ≤ ·)
  distinct.map fun c =>
    let title := (title? c).getD "Unknown"
    s!"{c} {title}: {present.count c}"

end Diagnostic

end DynScript

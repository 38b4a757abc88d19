import DynScript.Token

/-!
# Recovery

After an error the parser passes over tokens until it stands right after a semicolon or right
before a word that opens a statement, or at the end of the input.  At least one token is passed
over, so that it always gets on.
-/

namespace DynScript

/-- The words that open a statement or declaration. -/
def opensStatement : TokenKind → Bool
  | .kwClass | .kwFun | .kwVar | .kwLet | .kwFor | .kwIf | .kwWhile | .kwPrint | .kwReturn => true
  | _ => false

/-- Passes over tokens up to the next boundary; `last` is the token passed over last.  Gives that
token and the tokens left. -/
def skipToBoundary (last : Token) : List Token → Token × List Token
  | [] => (last, [])
  | t :: rest =>
    if last.kind = .semicolon || opensStatement t.kind then (last, t :: rest)
    else skipToBoundary t rest

/-- Where parsing goes on after an error in front of `rest`, when `last` was the token before. -/
def resumption (last : Token) : List Token → Token × List Token
  | [] => (last, [])
  | t :: rest => skipToBoundary t rest

theorem skipToBoundary_suffix (last rest) : (skipToBoundary last rest).2 <:+ rest := by
  induction rest generalizing last with
  | nil => exact List.suffix_refl _
  | cons t rest ih =>
    unfold skipToBoundary
    split
    · exact List.suffix_refl _
    · exact (ih t).trans (List.suffix_cons t rest)

theorem resumption_suffix (last rest) : (resumption last rest).2 <:+ rest := by
  cases rest with
  | nil => exact List.suffix_refl _
  | cons t rest => exact (skipToBoundary_suffix t rest).trans (List.suffix_cons t rest)

end DynScript

import DynScript.Token.Cover
import Mathlib.Data.List.Induction
import Mathlib.Data.List.TakeWhile

/-!
# Tokens and gaps tile the source

A source text falls apart into tiles, one after the other and without anything between them: the lexemes
of the tokens, blank characters, complete comments, and faults.
-/

namespace DynScript

open List TokenKind

/-! ### Places -/

/-- The place behind the text `before`: one line more than it has line feeds, and one column more than
it has characters behind the last line feed. -/
def placeAfter (file : String) (before : List Char) : Location :=
  ⟨file, before.count '\n' + 1, (before.reverse.takeWhile (· ≠ '\n')).length + 1⟩

lemma inFile_after (file before) :
    (({} : Position).after before).inFile file = placeAfter file before := by
  induction before using List.reverseRecOn with
  | nil => rfl
  | append_singleton before c ih =>
    simp only [Position.inFile, placeAfter, Location.mk.injEq, true_and] at ih
    obtain ⟨line, column⟩ := ih
    by_cases hc : c = '\n'
    · subst hc
      simp [placeAfter, Position.next, Position.inFile, line]
    · simp [placeAfter, Position.next, Position.inFile, hc, line, column]

/-! ### Gaps and faults -/

/-- Whether some token starts with a character. -/
def startsToken (c : Char) : Bool :=
  c = lambdaLetter || Number.isDigit c || startsName c || c = '"' || (ofChar? c).isSome

/-- A piece of text in front of `after` that is no token and is right: a blank, or a comment up to
the end of its line or its first closing mark. -/
inductive Gap : (text after : List Char) → Prop where
  | blank {c : Char} (h : c = ' ' ∨ c = '\t' ∨ c = '\r' ∨ c = '\n') (after : List Char) : Gap [c] after
  | line {body after : List Char} (h : '\n' ∉ body) (ends : after = [] ∨ after.head? = some '\n') :
    Gap ('/' :: '/' :: body) after
  | block {body : List Char} (h : ¬ ['*', '/'] <:+: body ++ ['*']) (after : List Char) :
    Gap ('/' :: '*' :: (body ++ ['*', '/'])) after

/-- A text in which every quotation mark is escaped. -/
inductive Unquoted : List Char → Prop where
  | nil : Unquoted []
  | backslash : Unquoted ['\\']
  | escape (c : Char) {cs : List Char} (h : Unquoted cs) : Unquoted ('\\' :: c :: cs)
  | plain {c : Char} {cs : List Char} (quote : c ≠ '"') (backslash : c ≠ '\\') (h : Unquoted cs) :
    Unquoted (c :: cs)

/-- A fault with its code, and the text in front of `after` that it is reported for: a character no
token starts with, or at the end a string or comment left open. -/
inductive Faulty : (code : String) → ScanFault → (text after : List Char) → Prop where
  | character {c} (h : startsToken c = false) (after : List Char) :
    Faulty "L001" (.unexpectedCharacter c) [c] after
  | string {body} (h : Unquoted body) : Faulty "L002" .unterminatedString ('"' :: body) []
  | comment {body : List Char} (h : ¬ ['*', '/'] <:+: body) :
    Faulty "L004" .unterminatedComment ('/' :: '*' :: body) []

/-- Errors about unsupported escapes in a text behind `before`, each where the escaped character
stands. -/
def EscapesReported (file : String) (before text : List Char) (errors : List ScanError) : Prop :=
  ∀ e ∈ errors, e.diagnostic.code = "L003" ∧ ∃ u c v, text = u ++ '\\' :: c :: v ∧
    unescape? c = none ∧ e.location = placeAfter file (before ++ u ++ ['\\'])

/-- The text `rest` behind `before` is tiled by the tokens and by gaps and faults; the errors report
the faults and escapes.  The last token is the end of the input. -/
inductive Tiling (file : String) : (before rest : List Char) → List Token → List ScanError → Prop where
  | eof {before : List Char} {t : Token} (kind : t.kind = .endOfInput) (lexeme : t.lexeme = "")
    (place : t.location = placeAfter file before) : Tiling file before [] [t] []
  | token {before text rest : List Char} {t : Token} {tokens : List Token}
    {escapes errors : List ScanError} (kind : t.kind ≠ .endOfInput) (nonempty : text ≠ [])
    (lexeme : t.lexeme = String.ofList text) (place : t.location = placeAfter file before)
    (inside : EscapesReported file before text escapes)
    (tail : Tiling file (before ++ text) rest tokens errors) :
    Tiling file before (text ++ rest) (t :: tokens) (escapes ++ errors)
  | gap {before text rest : List Char} {tokens : List Token} {errors : List ScanError}
    (h : Gap text rest) (tail : Tiling file (before ++ text) rest tokens errors) :
    Tiling file before (text ++ rest) tokens errors
  | fault {before text rest : List Char} {code : String} {e : ScanError} {tokens : List Token}
    {escapes errors : List ScanError} (h : Faulty code e.fault text rest)
    (reported : e.diagnostic.code = code) (place : e.location = placeAfter file before)
    (inside : EscapesReported file before text escapes)
    (tail : Tiling file (before ++ text) rest tokens errors) :
    Tiling file before (text ++ rest) tokens (escapes ++ e :: errors)

/-! ### Lexemes as tiles -/

namespace Lexeme

/-- The unsupported escapes of a text are where they are said to be. -/
def EscapesIn (text : List Char) (escapes : List (Nat × Char)) : Prop :=
  ∀ x ∈ escapes, unescape? x.2 = none ∧
    ∃ u v, text = u ++ '\\' :: x.2 :: v ∧ text.take x.1 = u ++ ['\\']

lemma escapesIn_nil (text) : EscapesIn text [] :=
  forall_mem_nil _

/-- A lexeme in front of `after` that is a tile. -/
inductive Fits : Lexeme → (after : List Char) → Prop where
  | gap {text after : List Char} (h : Gap text after) : Fits ⟨.blank, text, []⟩ after
  | token {kind : TokenKind} (literal : Option Constant) {text : List Char}
    {escapes : List (Nat × Char)} (h : kind ≠ .endOfInput) (nonempty : text ≠ [])
    (inside : EscapesIn text escapes) (after : List Char) : Fits ⟨.token kind literal, text, escapes⟩ after
  | fault {code : String} {f : ScanFault} {text after : List Char} {escapes : List (Nat × Char)}
    (h : Faulty code f text after) (inside : EscapesIn text escapes) :
    Fits ⟨.fault f, text, escapes⟩ after

/-! #### Comments -/

variable {cs text : List Char} {c : Char}

lemma not_infix_of_closeComment_eq_none (h : closeComment cs = none) : ¬ ['*', '/'] <:+: cs := by
  fun_induction closeComment cs with
  | case1 => simp
  | case2 => cases h
  | case3 c cs open' ih =>
    rw [infix_cons_iff]
    rintro (⟨rest, starts⟩ | inside)
    · obtain ⟨rfl, rfl⟩ := List.cons.inj starts
      exact open' rest rfl rfl
    · exact ih (Option.map_eq_none_iff.1 h) inside

lemma exists_of_closeComment {rest} (h : closeComment cs = some (text, rest)) :
    ∃ body, text = body ++ ['*', '/'] ∧ ¬ ['*', '/'] <:+: body ++ ['*'] := by
  fun_induction closeComment cs generalizing text rest with
  | case1 => cases h
  | case2 cs =>
    cases h
    exact ⟨[], rfl, by decide⟩
  | case3 c cs open' ih =>
    obtain ⟨⟨t, r⟩, ht, he⟩ := Option.map_eq_some_iff.1 h
    cases he
    obtain ⟨body, rfl, first⟩ := ih ht
    refine ⟨c :: body, rfl, ?_⟩
    rw [cons_append, infix_cons_iff]
    rintro (⟨more, starts⟩ | inside)
    · -- The mark would close the comment one character earlier.
      obtain ⟨rfl, earlier⟩ := List.cons.inj starts
      have split : cs = '/' :: (more ++ ['/'] ++ rest) := by
        rw [← append_of_closeComment ht, show ['*', '/'] = ['*'] ++ ['/'] from rfl, ← append_assoc,
          ← earlier]
        simp
      exact open' _ rfl split
    · exact first inside

lemma fits_comment {d after} {l} (h : comment c d cs = some (l, after)) : l.Fits after := by
  unfold comment at h
  split at h
  · rename_i opens
    simp only [Bool.and_eq_true, decide_eq_true_eq] at opens
    obtain ⟨rfl, rfl⟩ := opens
    cases h
    refine .gap (.line ?_ ?_)
    · intro feed
      simpa using mem_takeWhile_imp feed
    · cases hd : cs.dropWhile (· ≠ '\n') with
      | nil => exact .inl rfl
      | cons e es =>
        have stops := head?_dropWhile_not (fun x : Char => decide (x ≠ '\n')) cs
        rw [hd] at stops
        simpa using stops
  · split at h
    · rename_i opens
      simp only [Bool.and_eq_true, decide_eq_true_eq] at opens
      obtain ⟨rfl, rfl⟩ := opens
      split at h
      · rename_i text rest ht
        cases h
        obtain ⟨body, rfl, first⟩ := exists_of_closeComment ht
        exact .gap (.block first _)
      · rename_i hn
        cases h
        exact .fault (.comment (not_infix_of_closeComment_eq_none hn)) (escapesIn_nil _)
    · cases h

/-! #### Strings -/

lemma unquoted_of_rest_eq_none {n : Nat} (h : (stringTail n cs).rest = none) :
    Unquoted (stringTail n cs).text := by
  fun_induction stringTail n cs with
  | case1 => exact .nil
  | case2 => cases h
  | case3 => exact .backslash
  | case4 n e cs t c hc ih => exact .escape e (ih h)
  | case5 n e cs t hc ih => exact .escape e (ih h)
  | case6 n c cs quote lone escape t ih =>
    refine .plain quote ?_ (ih h)
    intro hc
    cases cs with
    | nil => exact lone hc rfl
    | cons e cs => exact escape e cs hc rfl

lemma EscapesIn.behind {n : Nat} (front : List Char) {escapes : List (Nat × Char)}
    (h : ∀ x ∈ escapes, unescape? x.2 = none ∧ ∃ u v, text = u ++ '\\' :: x.2 :: v ∧
      n + front.length ≤ x.1 ∧ text.take (x.1 - (n + front.length)) = u ++ ['\\']) :
    ∀ x ∈ escapes, unescape? x.2 = none ∧ ∃ u v, front ++ text = u ++ '\\' :: x.2 :: v ∧
      n ≤ x.1 ∧ (front ++ text).take (x.1 - n) = u ++ ['\\'] := by
  intro x hx
  obtain ⟨unknown, u, v, split, le, taken⟩ := h x hx
  refine ⟨unknown, front ++ u, v, by rw [split, append_assoc], by omega, ?_⟩
  -- Escapes are counted from the start of the string, `n` characters before `front`.
  have far : x.1 - n = front.length + (x.1 - (n + front.length)) := by omega
  rw [far, take_length_add_append, taken, append_assoc]

lemma escapes_stringTail (n : Nat) (cs : List Char) :
    ∀ x ∈ (stringTail n cs).escapes, unescape? x.2 = none ∧
      ∃ u v, (stringTail n cs).text = u ++ '\\' :: x.2 :: v ∧ n ≤ x.1 ∧
        (stringTail n cs).text.take (x.1 - n) = u ++ ['\\'] := by
  fun_induction stringTail n cs with
  | case1 | case2 | case3 => exact forall_mem_nil _
  | case4 n e cs t c hc ih => exact EscapesIn.behind ['\\', e] ih
  | case5 n e cs t hc ih =>
    rw [forall_mem_cons]
    refine ⟨⟨hc, [], t.text, rfl, by omega, ?_⟩, EscapesIn.behind ['\\', e] ih⟩
    simp
  | case6 n c cs quote lone escape t ih => exact EscapesIn.behind [c] ih

lemma fits_stringLiteral (cs : List Char) : (stringLiteral cs).1.Fits (stringLiteral cs).2 := by
  have inside : EscapesIn ('"' :: (stringTail 1 cs).text) (stringTail 1 cs).escapes := by
    intro x hx
    obtain ⟨unknown, u, v, split, -, taken⟩ :=
      EscapesIn.behind (n := 0) ['"'] (escapes_stringTail 1 cs) x hx
    exact ⟨unknown, u, v, split, taken⟩
  unfold stringLiteral
  dsimp only
  split
  · exact .token _ (by decide) (cons_ne_nil _ _) inside _
  · exact .fault (.string (unquoted_of_rest_eq_none ‹_›)) inside

/-! #### Words, numbers and operators -/

lemma ofWord_ne_endOfInput (s) : ofWord s ≠ .endOfInput := by
  have none : ∀ p ∈ keywords, p.2 ≠ .endOfInput := by decide
  unfold ofWord
  cases hk : keywords.lookup s with
  | none => decide
  | some k =>
    obtain ⟨l, r, split, -⟩ := lookup_eq_some_iff.1 hk
    exact none (s, k) (split ▸ by simp)

lemma ofPair?_ne_endOfInput (c d) : ofPair? c d ≠ some .endOfInput := by
  unfold ofPair?
  split <;> simp

lemma ofChar?_ne_endOfInput (c) : ofChar? c ≠ some .endOfInput := by
  unfold ofChar?
  split <;> simp

lemma fits_number (cs) (hc : Number.isDigit c) :
    (number (c :: cs)).1.Fits (number (c :: cs)).2 := by
  have whole := takeWhile_cons_ne_nil cs hc
  unfold number
  split
  · dsimp only
    split
    · exact .token _ (by decide) whole (escapesIn_nil _) _
    · exact .token _ (by decide) (by simp) (escapesIn_nil _) _
  · exact .token _ (by decide) whole (escapesIn_nil _) _

lemma fits_word (cs) (hc : startsName c) : (word (c :: cs)).1.Fits (word (c :: cs)).2 :=
  .token _ (ofWord_ne_endOfInput _) (takeWhile_cons_ne_nil cs (by simp [continuesName, hc]))
    (escapesIn_nil _) _

lemma fits_single (hc : startsToken c = (ofChar? c).isSome) (after) :
    (single c).Fits after := by
  unfold single
  split
  · rename_i k hk
    refine .token _ ?_ (cons_ne_nil _ _) (escapesIn_nil _) _
    rintro rfl
    exact ofChar?_ne_endOfInput c hk
  · rename_i hk
    exact .fault (.character (by rw [hc, hk]; rfl) _) (escapesIn_nil _)

lemma fits_operator (hc : startsToken c = (ofChar? c).isSome) (cs) :
    (operator c cs).1.Fits (operator c cs).2 := by
  unfold operator
  split
  · exact fits_single hc _
  · split
    · rename_i k hk
      refine .token _ ?_ (cons_ne_nil _ _) (escapesIn_nil _) _
      rintro rfl
      exact ofPair?_ne_endOfInput _ _ hk
    · exact fits_single hc _

/-- **The lexeme at the front of a text is a tile.** -/
theorem fits_first (c cs) : (first c cs).1.Fits (first c cs).2 := by
  unfold first
  split
  · rename_i blank
    simp only [isBlank, Bool.or_eq_true, decide_eq_true_eq, or_assoc] at blank
    exact .gap (.blank blank cs)
  · split
    · rename_i found hfound
      obtain ⟨d, hd, hc⟩ := Option.bind_eq_some_iff.1 hfound
      exact fits_comment hc
    · split
      · exact .token _ (by decide) (cons_ne_nil _ _) (escapesIn_nil _) _
      · split
        · exact fits_number cs ‹_›
        · split
          · exact fits_word cs ‹_›
          · split
            · exact fits_stringLiteral cs
            · -- Of the characters that start a token only those of operators are left.
              rename_i lambda digit name quote
              exact fits_operator (by simp [startsToken, lambda, digit, name, quote]) cs

lemma escapesReported {escapes} (h : EscapesIn text escapes) (file before) :
    EscapesReported file before text (escapes.map fun (n, c) => ⟨.unsupportedEscape c,
      ((({} : Position).after before).after (text.take n)).inFile file⟩) := by
  intro e he
  obtain ⟨⟨n, c⟩, hx, rfl⟩ := mem_map.1 he
  obtain ⟨unknown, u, v, split, taken⟩ := h _ hx
  refine ⟨rfl, u, c, v, split, unknown, ?_⟩
  simp only [← Position.after_append, inFile_after, append_assoc] at taken ⊢
  rw [taken]

lemma code_of_faulty {code f after} (h : Faulty code f text after) (place) :
    (ScanError.mk f place).diagnostic.code = code := by
  cases h <;> rfl

end Lexeme

/-! ### Scanning -/

lemma Tiling.cons {file before rest} {l : Lexeme} (h : l.Fits rest) {s : Scan}
    (tail : Tiling file (before ++ l.text) rest s.tokens s.errors) :
    Tiling file before (l.text ++ rest)
      ((l.token? file (({} : Position).after before)).toList ++ s.tokens)
      (l.errors file (({} : Position).after before) ++ s.errors) := by
  cases h with
  | gap h => exact .gap h tail
  | token literal kind nonempty inside =>
    simp only [Lexeme.errors, append_nil]
    exact .token kind nonempty rfl (inFile_after file before)
      (Lexeme.escapesReported inside file before) tail
  | fault h inside =>
    simp only [Lexeme.errors, append_assoc, singleton_append]
    exact .fault h (Lexeme.code_of_faulty h _) (inFile_after file before)
      (Lexeme.escapesReported inside file before) tail

lemma tiling_ofLexemes (file : String) (fuel : Nat) (before cs : List Char)
    (h : cs.length ≤ fuel) :
    let s := Scan.ofLexemes file (({} : Position).after before) (lexemesFrom fuel cs)
    Tiling file before cs s.tokens s.errors := by
  induction fuel generalizing before cs with
  | zero =>
    obtain rfl := length_eq_zero_iff.1 (Nat.le_zero.1 h)
    exact .eof rfl rfl (inFile_after file before)
  | succ fuel ih =>
    cases cs with
    | nil => exact .eof rfl rfl (inFile_after file before)
    | cons c cs =>
      -- A lexeme takes a character at least, so the fuel lasts for the text behind it.
      have shorter := Lexeme.length_first_lt c cs
      have tail := ih (before ++ (Lexeme.first c cs).1.text) (Lexeme.first c cs).2
        (by simp only [length_cons] at h shorter; omega)
      rw [Position.after_append] at tail
      have tiles := Tiling.cons (Lexeme.fits_first c cs) tail
      rw [Lexeme.first_append] at tiles
      exact tiles

/-- **Scanning loses nothing and invents nothing.**  The tokens of a source text are pieces of it, in
order and disjoint.  What stands between them is blank, a comment, or a fault that is reported once.
Every token and every report stands where its line and column say. -/
theorem scan_tiles (source file : String) :
    Tiling file [] source.toList (scan source file).tokens (scan source file).errors :=
  tiling_ofLexemes file source.toList.length [] source.toList (le_rfl)

end DynScript

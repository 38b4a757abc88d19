import DynScript.Proofs.Tiling

/-!
# Texts joined by a line feed

A line feed ends every lexeme but unterminated ones: no name, number or operator goes on behind a blank,
and a comment up to the end of the line stops in front of a line feed.
-/

namespace DynScript

open List Scan Position

/-- Two texts, the second one on a new line. -/
def lineJoined (a b : String) : String :=
  a ++ "\n" ++ b

lemma toList_joined (a b) : (lineJoined a b).toList = a.toList ++ '\n' :: b.toList := by
  simp [lineJoined]

/-- The faults that take the rest of the source with them. -/
def ScanFault.unterminated : ScanFault → Bool
  | .unterminatedString | .unterminatedComment => true
  | .unexpectedCharacter _ | .unsupportedEscape _ => false

/-! ### Where lexemes end -/

section

variable {p : Char → Bool} {c : Char}

lemma takeWhile_append_cons (hc : p c = false) (cs rest) :
    (cs ++ c :: rest).takeWhile p = cs.takeWhile p := by
  induction cs with
  | nil => simp [hc]
  | cons d cs ih => simp [takeWhile_cons, ih]

lemma dropWhile_append_cons (hc : p c = false) (cs rest) :
    (cs ++ c :: rest).dropWhile p = cs.dropWhile p ++ c :: rest := by
  induction cs with
  | nil => simp [hc]
  | cons d cs ih =>
    simp only [cons_append, dropWhile_cons, ih]
    split <;> rfl

end

namespace Lexeme

variable {c d : Char} {cs text after : List Char} {l : Lexeme}

/-- A lexeme is not an unterminated string or comment. -/
def Terminated (l : Lexeme) : Prop :=
  ∀ f, l.piece = .fault f → f.unterminated = false

lemma closeComment_append (h : closeComment cs = some (text, after)) (more) :
    closeComment (cs ++ more) = some (text, after ++ more) := by
  fun_induction closeComment cs generalizing text after with
  | case1 => cases h
  | case2 cs =>
    cases h
    rfl
  | case3 c cs hc ih =>
    obtain ⟨⟨t, r⟩, ht, he⟩ := Option.map_eq_some_iff.1 h
    cases he
    -- What follows a star is already there, so that nothing else can close the comment.
    have open' : ∀ cs', c = '*' → cs ++ more = '/' :: cs' → False := by
      intro cs' hs hm
      cases cs with
      | nil => cases ht
      | cons e cs =>
        obtain ⟨rfl, -⟩ := List.cons.inj hm
        exact hc cs hs rfl
    rw [cons_append, closeComment.eq_3 _ _ open', ih ht]
    rfl

lemma stringTail_append_of_some {n : Nat} (h : (stringTail n cs).rest = some after) (more) :
    stringTail n (cs ++ more) = { stringTail n cs with rest := some (after ++ more) } := by
  fun_induction stringTail n cs generalizing after with
  | case1 => cases h
  | case2 =>
    cases h
    rfl
  | case3 => cases h
  | case4 _ e cs _ c hc =>
    rename_i ih
    have next := ih h
    simp only [cons_append, stringTail, hc, next]
    rfl
  | case5 _ e cs _ hc =>
    rename_i ih
    have next := ih h
    simp only [cons_append, stringTail, hc, next]
    rfl
  | case6 n c cs hq hs hb =>
    rename_i ih
    have next := ih h
    have plain : c ≠ '\\' := by
      intro hc
      cases cs with
      | nil => exact hs hc rfl
      | cons e cs => exact hb e cs hc rfl
    rw [cons_append, stringTail.eq_def]
    split
    · contradiction
    · rename_i e _ hc
      exact absurd (List.cons.inj hc).1 hq
    · rename_i e hc
      exact absurd (List.cons.inj hc).1 plain
    · rename_i e hc
      exact absurd (List.cons.inj hc).1 plain
    · rename_i hc
      obtain ⟨rfl, rfl⟩ := List.cons.inj hc
      rw [next]

variable {b : Char}

lemma comment_append (h : comment c d cs = some (l, after)) (hl : l.Terminated)
    (hb : b = '\n' ∨ l.piece ≠ .blank) (more) :
    comment c d (cs ++ b :: more) = some (l, after ++ b :: more) := by
  unfold comment at h ⊢
  split at h
  · rename_i hc
    cases h
    obtain rfl := hb.resolve_right (absurd rfl)
    rw [if_pos hc, takeWhile_append_cons (by simp), dropWhile_append_cons (by simp)]
  · rename_i hc
    rw [if_neg hc]
    split at h
    · rename_i hd
      rw [if_pos hd]
      split at h
      · rename_i text rest ht
        cases h
        rw [closeComment_append ht]
      · cases h
        cases hl _ rfl
    · cases h

lemma ends_of_isBlank (hb : isBlank b) :
    Number.isDigit b = false ∧ b ≠ '.' ∧ continuesName b = false := by
  simp only [isBlank, Bool.or_eq_true, decide_eq_true_eq, or_assoc] at hb
  rcases hb with rfl | rfl | rfl | rfl <;> decide

lemma comment_eq_none_iff : comment c d cs = none ↔ ¬ (c = '/' ∧ (d = '/' ∨ d = '*')) := by
  unfold comment
  split
  · simp_all
  · split
    · split <;> simp_all
    · simp_all

lemma number_append_blank (hb : isBlank b) (cs more) :
    number (cs ++ b :: more) = ((number cs).1, (number cs).2 ++ b :: more) := by
  obtain ⟨stop, point, -⟩ := ends_of_isBlank hb
  unfold number
  rw [takeWhile_append_cons stop, dropWhile_append_cons stop]
  cases hd : cs.dropWhile Number.isDigit with
  | nil => simp [point]
  | cons e rest =>
    by_cases he : e = '.'
    · subst he
      simp only [cons_append, takeWhile_append_cons stop, dropWhile_append_cons stop]
      split <;> rfl
    · simp [he]

lemma word_append_blank (hb : isBlank b) (cs more) :
    word (cs ++ b :: more) = ((word cs).1, (word cs).2 ++ b :: more) := by
  obtain ⟨-, -, stop⟩ := ends_of_isBlank hb
  unfold word
  rw [takeWhile_append_cons stop, dropWhile_append_cons stop]

lemma stringLiteral_append_of_terminated (hl : (stringLiteral cs).1.Terminated) (more) :
    stringLiteral (cs ++ more) = ((stringLiteral cs).1, (stringLiteral cs).2 ++ more) := by
  unfold stringLiteral at hl ⊢
  cases hr : (stringTail 1 cs).rest with
  | none =>
    simp only [hr] at hl
    cases hl _ rfl
  | some after => simp only [stringTail_append_of_some hr, hr]

lemma ofPair?_blank (hb : isBlank b) (c) : TokenKind.ofPair? c b = none := by
  simp only [isBlank, Bool.or_eq_true, decide_eq_true_eq, or_assoc] at hb
  unfold TokenKind.ofPair?
  rcases hb with rfl | rfl | rfl | rfl <;> split <;> simp_all

lemma operator_append_blank (hb : isBlank b) (c cs more) :
    operator c (cs ++ b :: more) = ((operator c cs).1, (operator c cs).2 ++ b :: more) := by
  cases cs with
  | nil => simp [operator, ofPair?_blank hb]
  | cons d cs =>
    simp only [operator, cons_append]
    cases TokenKind.ofPair? c d <;> rfl

/-- **A blank ends every lexeme that is not left open,** where it is a line feed or the lexeme is not
blank itself. -/
theorem first_append_blank (hb : isBlank b) (hl : (first c cs).1.Terminated)
    (hn : b = '\n' ∨ (first c cs).1.piece ≠ .blank) (more) :
    first c (cs ++ b :: more) = ((first c cs).1, (first c cs).2 ++ b :: more) := by
  unfold first at hl hn ⊢
  split
  · rfl
  · rename_i blank
    rw [if_neg blank] at hl hn
    have found : (cs ++ b :: more).head?.bind (fun d => comment c d (cs ++ b :: more).tail) =
        (cs.head?.bind (fun d => comment c d cs.tail)).map fun x => (x.1, x.2 ++ b :: more) := by
      cases cs with
      | nil =>
        refine comment_eq_none_iff.2 ?_
        rintro ⟨-, rfl | rfl⟩ <;> cases hb
      | cons d cs =>
        simp only [cons_append, head?_cons, tail_cons, Option.bind_some] at hl hn ⊢
        cases hc : comment c d cs with
        | some x =>
          rw [hc] at hl hn
          exact comment_append hc hl hn more
        | none => exact comment_eq_none_iff.2 (comment_eq_none_iff.1 hc)
    rw [found]
    cases hc : cs.head?.bind (fun d => comment c d cs.tail) with
    | some x => rfl
    | none =>
      rw [hc] at hl
      simp only [Option.map_none] at hl ⊢
      split
      · rfl
      · rename_i lambda
        rw [if_neg lambda] at hl
        split
        · exact number_append_blank hb (c :: cs) more
        · rename_i digit
          rw [if_neg digit] at hl
          split
          · exact word_append_blank hb (c :: cs) more
          · rename_i name
            rw [if_neg name] at hl
            split
            · rename_i quote
              rw [if_pos quote] at hl
              exact stringLiteral_append_of_terminated hl _
            · exact operator_append_blank hb c cs more

end Lexeme

/-! ### All lexemes -/

lemma lexemesFrom_of_le {fuel : Nat} {cs : List Char} (h : cs.length ≤ fuel) :
    lexemesFrom fuel cs = lexemes cs := by
  unfold lexemes
  generalize hn : cs.length = n at h
  induction n using Nat.strongRecOn generalizing fuel cs with
  | ind n ih =>
    cases cs with
    | nil => cases fuel <;> cases n <;> rfl
    | cons c cs =>
      have shorter := Lexeme.length_first_lt c cs
      obtain ⟨fuel, rfl⟩ : ∃ k, fuel = k + 1 := ⟨fuel - 1, by simp at hn; omega⟩
      obtain ⟨n, rfl⟩ : ∃ k, n = k + 1 := ⟨n - 1, by simp at hn; omega⟩
      rw [hn] at shorter
      simp only [lexemesFrom]
      have enough : lexemesFrom n (Lexeme.first c cs).2 =
          lexemesFrom (Lexeme.first c cs).2.length (Lexeme.first c cs).2 :=
        ih _ shorter rfl (by omega)
      rw [enough, ih _ shorter rfl (by omega)]

lemma lexemes_cons (c cs) :
    lexemes (c :: cs) = (Lexeme.first c cs).1 :: lexemes (Lexeme.first c cs).2 := by
  have shorter := Lexeme.length_first_lt c cs
  rw [← lexemesFrom_of_le (Nat.le_of_lt_succ shorter)]
  rfl

/-- **The lexemes of joined texts** are those of the two, with a blank between them. -/
theorem lexemes_joined (cs more) (h : ∀ l ∈ lexemes cs, l.Terminated) :
    lexemes (cs ++ '\n' :: more) = lexemes cs ++ ⟨.blank, ['\n'], []⟩ :: lexemes more := by
  generalize hn : cs.length = n
  induction n using Nat.strongRecOn generalizing cs with
  | ind n ih =>
    cases cs with
    | nil => exact lexemes_cons '\n' more
    | cons c cs =>
      have shorter := Lexeme.length_first_lt c cs
      rw [lexemes_cons] at h ⊢
      rw [cons_append, lexemes_cons,
        Lexeme.first_append_blank rfl (h _ mem_cons_self) (.inl rfl) more]
      rw [ih _ (hn ▸ shorter) _ (fun l hl => h l (mem_cons_of_mem _ hl)) rfl]
      rfl

/-! ### Places further down -/

/-- A position `n` lines further down. -/
def Position.down (n : Nat) (p : Position) : Position :=
  ⟨p.line + n, p.column⟩

/-- A place `n` lines further down. -/
def Location.down (n : Nat) (l : Location) : Location :=
  { l with line := l.line + n }

/-- A token `n` lines further down. -/
def Token.down (n : Nat) (t : Token) : Token :=
  { t with location := t.location.down n }

/-- An error `n` lines further down. -/
def ScanError.down (n : Nat) (e : ScanError) : ScanError :=
  { e with location := e.location.down n }

/-- The number of lines of a text that stands in front of a line feed. -/
def lineCount (a : String) : Nat :=
  (after {} a.toList).line

lemma Position.after_down (n : Nat) (p : Position) (cs) :
    (p.down n).after cs = (p.after cs).down n := by
  induction cs generalizing p with
  | nil => rfl
  | cons c cs ih =>
    have next : (p.down n).next c = (p.next c).down n := by
      unfold next down
      split
      · rw [Nat.add_right_comm]
      · rfl
    rw [after_cons, after_cons, next, ih]

lemma Position.after_newline (a : String) :
    (after {} a.toList).next '\n' = down (lineCount a) {} := by
  simp [next, down, lineCount, Nat.add_comm]

lemma Scan.tokens_down (file) (n : Nat) (start : Position) (ls) :
    (ofLexemes file (start.down n) ls).tokens =
      (ofLexemes file start ls).tokens.map (Token.down n) := by
  induction ls generalizing start with
  | nil => rfl
  | cons l ls ih =>
    have head : (l.token? file (start.down n)) = (l.token? file start).map (Token.down n) := by
      unfold Lexeme.token?
      split <;> rfl
    simp only [ofLexemes, after_down, ih, head, map_append]
    cases l.token? file start <;> rfl

lemma Scan.errors_down (file) (n : Nat) (start : Position) (ls) :
    (ofLexemes file (start.down n) ls).errors =
      (ofLexemes file start ls).errors.map (ScanError.down n) := by
  induction ls generalizing start with
  | nil => rfl
  | cons l ls ih =>
    have head : l.errors file (start.down n) = (l.errors file start).map (ScanError.down n) := by
      unfold Lexeme.errors
      rw [map_append, map_map]
      congr 1
      · refine map_congr_left fun x _ => ?_
        dsimp only [Function.comp_apply]
        rw [after_down]
        rfl
      · split <;> rfl
    simp only [ofLexemes, after_down, ih, head, map_append]

lemma Scan.tokens_ne_nil (file start ls) : (ofLexemes file start ls).tokens ≠ [] := by
  induction ls generalizing start with
  | nil => exact cons_ne_nil _ _
  | cons l ls ih => exact append_ne_nil_of_right_ne_nil _ (ih _)

lemma Scan.tokens_append (file) (start ls ms) :
    (ofLexemes file start (ls ++ ms)).tokens =
      (ofLexemes file start ls).tokens.dropLast ++
        (ofLexemes file (start.after (ls.flatMap (·.text))) ms).tokens := by
  induction ls generalizing start with
  | nil => rfl
  | cons l ls ih =>
    have some := tokens_ne_nil file (start.after l.text) ls
    simp only [cons_append, ofLexemes, ih, flatMap_cons, after_append,
      dropLast_append_of_ne_nil some, append_assoc]

lemma Scan.errors_append (file) (start ls ms) :
    (ofLexemes file start (ls ++ ms)).errors =
      (ofLexemes file start ls).errors ++
        (ofLexemes file (start.after (ls.flatMap (·.text))) ms).errors := by
  induction ls generalizing start with
  | nil => rfl
  | cons l ls ih =>
    simp only [cons_append, ofLexemes, ih, flatMap_cons, after_append,
      append_assoc]

variable {file : String}

lemma Scan.terminated_of_errors {start ls}
    (h : ∀ e ∈ (ofLexemes file start ls).errors, e.fault.unterminated = false) :
    ∀ l ∈ ls, l.Terminated := by
  induction ls generalizing start with
  | nil => exact forall_mem_nil _
  | cons l ls ih =>
    obtain ⟨here, later⟩ := forall_mem_append.1 h
    refine forall_mem_cons.2 ⟨fun f hf => ?_, ih later⟩
    refine here ⟨f, start.inFile file⟩ (mem_append_right _ ?_)
    rw [hf]
    exact mem_singleton_self _

/-- **The tokens of joined texts** are those of the two, the second ones further down, with one end
of input. -/
theorem tokens_joined {a} (h : ∀ e ∈ (scan a file).errors, e.fault.unterminated = false) (b) :
    (scan (lineJoined a b) file).tokens = (scan a file).tokens.dropLast ++
      (scan b file).tokens.map (Token.down (lineCount a)) := by
  have terminated := terminated_of_errors h
  have blank (start : Position) (ls : List Lexeme) :
      (ofLexemes file start (⟨.blank, ['\n'], []⟩ :: ls)).tokens =
        (ofLexemes file (start.next '\n') ls).tokens := rfl
  unfold scan at terminated ⊢
  rw [toList_joined, lexemes_joined _ _ terminated, tokens_append, flatMap_text_lexemes, blank,
    after_newline, tokens_down]

/-- **The errors of joined texts** are those of the two, the second ones further down. -/
theorem errors_joined {a} (h : ∀ e ∈ (scan a file).errors, e.fault.unterminated = false) (b) :
    (scan (lineJoined a b) file).errors = (scan a file).errors ++
      (scan b file).errors.map (ScanError.down (lineCount a)) := by
  have terminated := terminated_of_errors h
  have blank (start : Position) (ls : List Lexeme) :
      (ofLexemes file start (⟨.blank, ['\n'], []⟩ :: ls)).errors =
        (ofLexemes file (start.next '\n') ls).errors := rfl
  unfold scan at terminated ⊢
  rw [toList_joined, lexemes_joined _ _ terminated, errors_append, flatMap_text_lexemes, blank,
    after_newline, errors_down]

lemma lineCount_eq (a) : lineCount a = 1 + a.toList.count '\n' := by
  have place := congrArg Location.line (inFile_after "" a.toList)
  rw [Nat.add_comm]
  exact place

/-- The tokens of a scan apart from the end of the input. -/
def Scan.withoutEnd (s : Scan) : List Token :=
  s.tokens.filter (·.kind ≠ .endOfInput)

lemma Tiling.filter_eq_dropLast {before rest} {tokens} {errors}
    (h : Tiling file before rest tokens errors) :
    tokens ≠ [] ∧ tokens.filter (·.kind ≠ .endOfInput) = tokens.dropLast := by
  induction h with
  | eof kind => exact ⟨cons_ne_nil _ _, by simp [kind]⟩
  | token kind _ _ _ _ _ ih =>
    refine ⟨cons_ne_nil _ _, ?_⟩
    rw [filter_cons_of_pos (by simpa using kind), dropLast_cons_of_ne_nil ih.1, ih.2]
  | gap _ _ ih => exact ih
  | fault _ _ _ _ _ ih => exact ih

lemma Scan.withoutEnd_eq_dropLast (source file) :
    (scan source file).withoutEnd = (scan source file).tokens.dropLast :=
  (scan_tiles source file).filter_eq_dropLast.2

/-- **Scanning goes line by line.**  When a text leaves no string and no comment open, scanning it with a
line feed and another text behind it gives its own tokens, without the end of the input, and then those
of the other text, further down by the line feed and those of the first text.  So it is with the
errors. -/
theorem scan_joined {a file : String} (h : ∀ e ∈ (scan a file).errors,
      e.fault ≠ .unterminatedString ∧ e.fault ≠ .unterminatedComment) (b : String) :
    (scan (lineJoined a b) file).tokens = (scan a file).withoutEnd ++
        (scan b file).tokens.map (Token.down (1 + a.toList.count '\n')) ∧
      (scan (lineJoined a b) file).errors = (scan a file).errors ++
        (scan b file).errors.map (ScanError.down (1 + a.toList.count '\n')) := by
  have closed : ∀ e ∈ (scan a file).errors, e.fault.unterminated = false := by
    intro e he
    obtain ⟨string, comment⟩ := h e he
    cases hf : e.fault with
    | unterminatedString => exact absurd hf string
    | unterminatedComment => exact absurd hf comment
    | unexpectedCharacter | unsupportedEscape => rfl
  rw [← lineCount_eq, withoutEnd_eq_dropLast]
  exact ⟨tokens_joined closed b, errors_joined closed b⟩

/-- A slash at the end of a line does not open a comment with the one below it. -/
theorem scan_joined_slashes :
    (∀ e ∈ (scan "a \\ /" "f").errors,
      e.fault ≠ .unterminatedString ∧ e.fault ≠ .unterminatedComment) ∧
    (scan (lineJoined "a \\ /" "/ \\") "f").tokens.map (fun t => (t.lexeme, t.location.line)) =
      [("a", 1), ("/", 1), ("/", 2), ("", 2)] ∧
    (scan (lineJoined "a \\ /" "/ \\") "f").errors =
      [⟨.unexpectedCharacter '\\', ⟨"f", 1, 3⟩⟩, ⟨.unexpectedCharacter '\\', ⟨"f", 2, 3⟩⟩] := by
  have closed : ∀ e ∈ (scan "a \\ /" "f").errors,
      e.fault ≠ .unterminatedString ∧ e.fault ≠ .unterminatedComment := by decide
  obtain ⟨tokens, errors⟩ := scan_joined closed "/ \\"
  rw [tokens, errors]
  exact ⟨closed, by decide, by decide⟩

end DynScript

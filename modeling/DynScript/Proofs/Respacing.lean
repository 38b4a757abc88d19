import DynScript.Proofs.WrittenWords

/-!
# Tokens survive new spacing

Where a token ends is decided by its own characters and the one behind them, and a blank continues no
token.
-/

namespace DynScript

open List Lexeme

/-! ### Spacing -/

/-- What stands between two words: blanks, one at least. -/
structure Spacing where
  chars : List Char
  nonempty : chars ≠ []
  blank : ∀ c ∈ chars, isBlank c

/-- The words in order, with the given spacing behind each but the last. -/
def respaced (gaps : Nat → Spacing) : List String → String
  | [] => ""
  | [w] => w
  | w :: v :: ws => w ++ String.ofList (gaps 0).chars ++ respaced (fun n => gaps (n + 1)) (v :: ws)

/-! ### Escapes -/

/-- The unsupported escapes in a text behind `offset` characters, each with the number of characters
before the escaped one. -/
def unsupportedEscapes (offset : Nat) : List Char → List (Nat × Char)
  | [] => []
  | '\\' :: e :: cs =>
    if (unescape? e).isSome then unsupportedEscapes (offset + 2) cs
    else (offset + 1, e) :: unsupportedEscapes (offset + 2) cs
  | _ :: cs => unsupportedEscapes (offset + 1) cs

/-- The errors about the escapes in the text of a token, each where the escaped character stands. -/
def Token.escapeErrors (t : Token) : List ScanError :=
  let start : Position := ⟨t.location.line, t.location.column⟩
  (unsupportedEscapes 0 t.lexeme.toList).map fun x =>
    ⟨.unsupportedEscape x.2, (start.after (t.lexeme.toList.take x.1)).inFile t.location.file⟩

lemma unsupportedEscapes_cons {c} (hc : c ≠ '\\') (n : Nat) (cs) :
    unsupportedEscapes n (c :: cs) = unsupportedEscapes (n + 1) cs :=
  unsupportedEscapes.eq_3 n c cs fun _ _ h => absurd h hc

lemma unsupportedEscapes_of_not_mem {cs} (h : '\\' ∉ cs) (n : Nat) :
    unsupportedEscapes n cs = [] := by
  induction cs generalizing n with
  | nil => rfl
  | cons c cs ih =>
    rw [mem_cons, not_or] at h
    rw [unsupportedEscapes_cons (Ne.symm h.1), ih h.2]

namespace Lexeme

variable {c : Char} {cs after : List Char}

lemma escapes_stringTail_eq (n : Nat) (cs) :
    (stringTail n cs).escapes = unsupportedEscapes n (stringTail n cs).text := by
  fun_induction stringTail n cs with
  | case1 => rfl
  | case2 => rfl
  | case3 => rfl
  | case4 n e cs t c hc ih => simp [unsupportedEscapes, hc, t, ih]
  | case5 n e cs t hc ih => simp [unsupportedEscapes, hc, t, ih]
  | case6 n c cs _ lone escape t ih =>
    have plain : c ≠ '\\' := by
      rintro rfl
      cases cs with
      | nil => exact lone rfl rfl
      | cons e cs => exact escape e cs rfl rfl
    rw [unsupportedEscapes_cons plain, ih]

/-! ### Texts of tokens -/

lemma stringTail_text {n : Nat} (h : (stringTail n cs).rest = some after) :
    stringTail n (stringTail n cs).text = { stringTail n cs with rest := some [] } := by
  fun_induction stringTail n cs with
  | case1 => cases h
  | case2 => rfl
  | case3 => cases h
  | case4 n e cs t c hc ih => simp only [stringTail, hc, t, ih h]
  | case5 n e cs t hc ih => simp only [stringTail, hc, t, ih h]
  | case6 n c cs quote lone escape t ih =>
    have plain : c ≠ '\\' := by
      rintro rfl
      cases cs with
      | nil => exact lone rfl rfl
      | cons e cs => exact escape e cs rfl rfl
    rw [stringTail.eq_5 _ _ _ quote (fun h => absurd h plain) (fun _ _ h => absurd h plain), ih h]

variable {k : TokenKind} {v : Option Constant} {l : Lexeme}

lemma stringLiteral_text (h : (stringLiteral cs).1.piece = .token k v) :
    stringLiteral (stringLiteral cs).1.text.tail = ((stringLiteral cs).1, []) := by
  unfold stringLiteral at h ⊢
  cases hr : (stringTail 1 cs).rest with
  | none =>
    simp only [hr] at h
    cases h
  | some rest => simp only [tail_cons, stringTail_text hr, hr]

lemma number_shape (cs) :
    ∃ whole fraction, (∀ c ∈ whole, Number.isDigit c) ∧ (∀ c ∈ fraction, Number.isDigit c) ∧
      (number cs).1 = ⟨.token .number (some (.number (Number.ofLiteral whole fraction))),
        if fraction = [] then whole else whole ++ '.' :: fraction, []⟩ := by
  have digits (ds : List Char) : ∀ c ∈ ds.takeWhile Number.isDigit, Number.isDigit c :=
    fun _ hc => mem_takeWhile_imp hc
  unfold number
  split
  · rename_i rest _
    dsimp only
    split
    · exact ⟨_, [], digits cs, forall_mem_nil _, rfl⟩
    · rename_i some
      refine ⟨_, _, digits cs, digits rest, ?_⟩
      rw [if_neg (by simpa using some)]
  · exact ⟨_, [], digits cs, forall_mem_nil _, rfl⟩

lemma number_text (cs) : number (number cs).1.text = ((number cs).1, []) := by
  obtain ⟨whole, fraction, hw, hf, shape⟩ := number_shape cs
  have taken {ds : List Char} (h : ∀ c ∈ ds, Number.isDigit c) := takeWhile_eq_self_iff.2 h
  have dropped {ds : List Char} (h : ∀ c ∈ ds, Number.isDigit c) := dropWhile_eq_nil_iff.2 h
  rw [shape, number]
  cases fraction with
  | nil => simp only [if_true, taken hw, dropped hw]
  | cons d ds =>
    have point : Number.isDigit '.' = false := rfl
    simp only [reduceCtorEq, if_false, takeWhile_append_cons point, dropWhile_append_cons point,
      taken hw, dropped hw, nil_append, taken hf, dropped hf, isEmpty_cons,
      Bool.false_eq_true]

lemma word_text (cs) : word (word cs).1.text = ((word cs).1, []) := by
  have all : ∀ c ∈ cs.takeWhile continuesName, continuesName c := fun _ hc => mem_takeWhile_imp hc
  unfold word
  rw [takeWhile_eq_self_iff.2 all, dropWhile_eq_nil_iff.2 all]

lemma operator_text (c cs) : operator c (operator c cs).1.text.tail = ((operator c cs).1, []) := by
  cases cs with
  | nil => simp only [operator, single_text, tail_cons]
  | cons d cs =>
    simp only [operator]
    cases hk : TokenKind.ofPair? c d with
    | some k => simp only [tail_cons, hk]
    | none => simp only [single_text, tail_cons]

/-- A token that is scanned from its own text, with the escapes that are in it. -/
structure Stands (l : Lexeme) : Prop where
  token : ∃ kind literal, l.piece = .token kind literal
  again : ∃ c cs, l.text = c :: cs ∧ first c cs = (l, [])
  escapes : l.escapes = unsupportedEscapes 0 l.text

lemma first_text_eq_cons (c cs) :
    (first c cs).1.text = c :: (first c cs).1.text.tail ∧ (first c cs).1.text.tail <+: cs := by
  have split := first_append c cs
  obtain ⟨d, ds, text⟩ := exists_cons_of_ne_nil (first_text_ne_nil c cs)
  rw [text, cons_append] at split
  obtain ⟨rfl, rest⟩ := List.cons.inj split
  rw [text]
  exact ⟨rfl, _, rest⟩

lemma no_comment_of_prefix {ds} (h : ds <+: cs)
    (hn : cs.head?.bind (fun d => comment c d cs.tail) = none) :
    ds.head?.bind (fun d => comment c d ds.tail) = none := by
  cases ds with
  | nil => rfl
  | cons d ds =>
    obtain ⟨more, rfl⟩ := h
    exact comment_eq_none_iff.2 (comment_eq_none_iff.1 hn)

lemma opens_of_token (h : (first c cs).1.piece = .token k v) :
    isBlank c = false ∧ cs.head?.bind (fun d => comment c d cs.tail) = none := by
  unfold first at h
  split at h
  · cases h
  · rename_i blank
    split at h
    · rename_i found hf
      obtain ⟨d, -, hc⟩ := Option.bind_eq_some_iff.1 hf
      exact absurd h (piece_comment hc k v)
    · rename_i none
      exact ⟨by simpa using blank, none⟩

lemma escapes_number (cs) : (number cs).1.escapes = unsupportedEscapes 0 (number cs).1.text := by
  obtain ⟨whole, fraction, hw, hf, shape⟩ := number_shape cs
  have digit {ds : List Char} (h : ∀ c ∈ ds, Number.isDigit c) : '\\' ∉ ds :=
    fun hc => absurd (h _ hc) (by decide)
  rw [shape, unsupportedEscapes_of_not_mem]
  split
  · exact digit hw
  · simp [digit hw, digit hf]

lemma escapes_word (cs) : (word cs).1.escapes = unsupportedEscapes 0 (word cs).1.text := by
  have plain : '\\' ∉ (word cs).1.text := fun hc => absurd (mem_takeWhile_imp hc) (by decide)
  rw [unsupportedEscapes_of_not_mem plain]
  rfl

lemma escapes_operator (h : (operator c cs).1.piece = .token k v) :
    (operator c cs).1.escapes = unsupportedEscapes 0 (operator c cs).1.text := by
  have alone {c : Char} (h : (single c).piece = .token k v) :
      (single c).escapes = unsupportedEscapes 0 (single c).text := by
    have plain : '\\' ∉ (single c).text := by
      rw [single_text, mem_singleton]
      rintro rfl
      cases h
    rw [unsupportedEscapes_of_not_mem plain, single]
    split <;> rfl
  cases cs with
  | nil => exact alone h
  | cons d cs =>
    simp only [operator] at h ⊢
    cases hk : TokenKind.ofPair? c d with
    | none =>
      rw [hk] at h
      exact alone h
    | some k =>
      have left : c ≠ '\\' := by
        rintro rfl
        simp [TokenKind.ofPair?] at hk
      have right : d ≠ '\\' := by
        rintro rfl
        unfold TokenKind.ofPair? at hk
        split at hk <;> simp_all
      exact (unsupportedEscapes_of_not_mem (by simp [left.symm, right.symm]) 0).symm

lemma escapes_stringLiteral (cs) :
    (stringLiteral cs).1.escapes = unsupportedEscapes 0 (stringLiteral cs).1.text := by
  have quoted : unsupportedEscapes 0 ('"' :: (stringTail 1 cs).text) =
      unsupportedEscapes 1 (stringTail 1 cs).text := unsupportedEscapes_cons (by decide) 0 _
  unfold stringLiteral
  dsimp only
  split <;> exact (escapes_stringTail_eq 1 cs).trans quoted.symm

/-- **The text of a token is scanned as that token again.** -/
theorem stands_first (h : (first c cs).1.piece = .token k v) : (first c cs).1.Stands := by
  obtain ⟨blank, none⟩ := opens_of_token h
  obtain ⟨text, cut⟩ := first_text_eq_cons c cs
  have none' := no_comment_of_prefix cut none
  generalize hl : (first c cs).1 = l at h text none' ⊢
  simp only [first, blank, none, Bool.false_eq_true, if_false] at hl
  refine ⟨⟨k, v, h⟩, ⟨c, _, text, ?_⟩, ?_⟩
  · simp only [first, blank, none', Bool.false_eq_true, if_false]
    split_ifs at hl ⊢
    · subst hl
      rfl
    · rw [← text, ← hl]
      exact number_text _
    · rw [← text, ← hl]
      exact word_text _
    · subst hl
      exact stringLiteral_text h
    · rw [← hl]
      exact operator_text c cs
  · split_ifs at hl <;> subst hl
    · exact (unsupportedEscapes_of_not_mem (by simp [‹c = lambdaLetter›, lambdaLetter]) 0).symm
    · exact escapes_number _
    · exact escapes_word _
    · exact escapes_stringLiteral cs
    · exact escapes_operator h

lemma Stands.append (h : l.Stands) {b} (hb : isBlank b) (more) :
    lexemes (l.text ++ b :: more) = l :: lexemes (b :: more) := by
  obtain ⟨⟨k, v, token⟩, ⟨c, cs, text, again⟩, -⟩ := h
  have terminated : (first c cs).1.Terminated := by
    rw [again]
    intro f hf
    cases token.symm.trans hf
  have visible : (first c cs).1.piece ≠ .blank := by
    rw [again, token]
    rintro ⟨⟩
  rw [text, cons_append, lexemes_cons, first_append_blank hb terminated (.inr visible), again]
  rfl

lemma Stands.alone (h : l.Stands) : lexemes l.text = [l] := by
  obtain ⟨-, ⟨c, cs, text, again⟩, -⟩ := h
  rw [text, lexemes_cons, again]
  rfl

lemma Stands.errors (h : l.Stands) (file start) :
    l.errors file start = (l.token? file start).toList.flatMap Token.escapeErrors := by
  obtain ⟨k, v, token⟩ := h.token
  simp only [Lexeme.errors, Lexeme.token?, token, Option.toList_some, flatMap_cons,
    flatMap_nil, append_nil, Token.escapeErrors, String.toList_ofList, h.escapes]
  rfl

end Lexeme

lemma stands_of_mem_lexemes {cs} {l} (hl : l ∈ lexemes cs) {k v} (h : l.piece = .token k v) :
    l.Stands := by
  generalize hn : cs.length = n
  induction n using Nat.strongRecOn generalizing cs with
  | ind n ih =>
    cases cs with
    | nil => cases hl
    | cons c cs =>
      rw [lexemes_cons] at hl
      rcases mem_cons.1 hl with rfl | hl
      · exact stands_first h
      · exact ih _ (hn ▸ length_first_lt c cs) hl rfl

/-! ### Texts with new spacing -/

/-- A lexeme with which nothing is wrong but for escapes in a token. -/
def Lexeme.Settled (l : Lexeme) : Prop :=
  (∃ text, l = ⟨.blank, text, []⟩) ∨ l.Stands

lemma lexemes_blanks {gap} (h : ∀ c ∈ gap, isBlank c) (more) :
    lexemes (gap ++ more) = gap.map (fun c => ⟨.blank, [c], []⟩) ++ lexemes more := by
  induction gap with
  | nil => rfl
  | cons c gap ih =>
    obtain ⟨hc, hg⟩ := forall_mem_cons.1 h
    rw [cons_append, lexemes_cons, first, if_pos hc, ih hg]
    rfl

lemma lexemes_respaced (gaps : Nat → Spacing) (ls : List Lexeme) (h : ∀ l ∈ ls, l.Stands) :
    ∃ ms, lexemes (respaced gaps (ls.map fun l => String.ofList l.text)).toList = ms ∧
      (∀ l ∈ ms, l.Settled) ∧ ms.filterMap word? = ls.filterMap word? := by
  induction ls generalizing gaps with
  | nil => exact ⟨[], rfl, forall_mem_nil _, rfl⟩
  | cons l ls ih =>
    obtain ⟨hl, hs⟩ := forall_mem_cons.1 h
    cases ls with
    | nil =>
      refine ⟨[l], ?_, forall_mem_singleton.2 (.inr hl), rfl⟩
      simp only [map_cons, map_nil, respaced, String.toList_ofList, hl.alone]
    | cons k ks =>
      obtain ⟨ms, scanned, settled, words⟩ := ih (fun n => gaps (n + 1)) hs
      obtain ⟨b, gap, split⟩ := exists_cons_of_ne_nil (gaps 0).nonempty
      have blank := (gaps 0).blank
      refine ⟨l :: ((gaps 0).chars.map (fun c => ⟨.blank, [c], []⟩) ++ ms), ?_, ?_, ?_⟩
      · rw [split] at blank ⊢
        have front := hl.append (blank b mem_cons_self)
        simp only [map_cons, respaced, String.toList_append, String.toList_ofList, split,
          append_assoc, cons_append] at scanned ⊢
        rw [front, ← cons_append, lexemes_blanks blank, scanned]
        rfl
      · refine forall_mem_cons.2 ⟨.inr hl, forall_mem_append.2 ⟨?_, settled⟩⟩
        exact forall_mem_map.2 fun c _ => .inl ⟨_, rfl⟩
      · have none : ((gaps 0).chars.map (fun c => (⟨.blank, [c], []⟩ : Lexeme))).filterMap
            word? = [] := by
          rw [filterMap_eq_nil_iff]
          exact forall_mem_map.2 fun _ _ => rfl
        simp only [filterMap_cons, filterMap_append, none, words, nil_append]

lemma Scan.errors_of_settled (file) {start ls} (h : ∀ l ∈ ls, l.Settled) :
    (Scan.ofLexemes file start ls).errors =
      (Scan.ofLexemes file start ls).tokens.flatMap Token.escapeErrors := by
  induction ls generalizing start with
  | nil => rfl
  | cons l ls ih =>
    obtain ⟨hl, hs⟩ := forall_mem_cons.1 h
    have head : l.errors file start = (l.token? file start).toList.flatMap Token.escapeErrors := by
      rcases hl with ⟨text, rfl⟩ | stands
      · rfl
      · exact stands.errors file start
    simp only [Scan.ofLexemes, flatMap_append, head, ih hs]

lemma Scan.sublist_errors (file start) {ls} (h : ∀ l ∈ ls, ∀ k v, l.piece = .token k v → l.Stands) :
    ((Scan.ofLexemes file start ls).tokens.flatMap Token.escapeErrors).Sublist
      (Scan.ofLexemes file start ls).errors := by
  induction ls generalizing start with
  | nil => exact List.Sublist.slnil
  | cons l ls ih =>
    obtain ⟨hl, hs⟩ := forall_mem_cons.1 h
    simp only [Scan.ofLexemes, flatMap_append]
    refine List.Sublist.append ?_ (ih _ hs)
    cases hp : l.piece with
    | token k v => exact ((hl k v hp).errors file start).symm ▸ List.Sublist.refl _
    | blank | fault => simp [Lexeme.token?, hp]

lemma Token.map_fault_escapeErrors (t : Token) :
    t.escapeErrors.map (·.fault) =
      (unsupportedEscapes 0 t.word.lexeme.toList).map fun x => .unsupportedEscape x.2 := by
  rw [escapeErrors, map_map]
  rfl

lemma Token.map_fault_flatMap (ts : List Token) :
    (ts.flatMap escapeErrors).map (·.fault) = (ts.map word).flatMap fun w =>
      (unsupportedEscapes 0 w.lexeme.toList).map fun x => .unsupportedEscape x.2 := by
  rw [map_flatMap, flatMap_map]
  exact flatMap_congr fun t _ => t.map_fault_escapeErrors

lemma Token.code_escapeErrors (t : Token) :
    ∀ e ∈ t.escapeErrors, e.diagnostic.code = "L003" :=
  forall_mem_map.2 fun _ _ => rfl

lemma Lexeme.lexeme_of_word? {l : Lexeme} {w} (h : l.word? = some w) :
    w.lexeme = String.ofList l.text := by
  unfold word? at h
  split at h <;> cases h
  rfl

lemma Scan.lexemes_withoutEnd (source file) :
    (scan source file).withoutEnd.map (·.lexeme) =
      ((lexemes source.toList).filter (·.word?.isSome)).map fun l => String.ofList l.text := by
  have words := Scan.words_ofLexemes file {} (lexemes source.toList)
  have lexeme : (fun t : Token => t.lexeme) = (fun w : Word => w.lexeme) ∘ Token.word := rfl
  rw [withoutEnd_eq_dropLast, lexeme, ← map_map, map_dropLast, scan, words,
    dropLast_concat]
  generalize lexemes source.toList = ls
  induction ls with
  | nil => rfl
  | cons l ls ih =>
    cases hw : l.word? with
    | none => rw [filterMap_cons_none hw, filter_cons_of_neg (by simp [hw]), ih]
    | some w =>
      rw [filterMap_cons_some hw, filter_cons_of_pos (by simp [hw]), map_cons,
        map_cons, ih, lexeme_of_word? hw]

/-- **Tokens survive new spacing.**  The texts of the tokens of a source text, written in order with any
blanks between them, are scanned as the same tokens.  All that is reported then are unsupported escapes
in strings.  They are those in the texts of the tokens, and have been reported before. -/
theorem scan_respaced (source file : String) (gaps : Nat → Spacing) :
    let old := scan source file
    let new := scan (respaced gaps (old.withoutEnd.map (·.lexeme))) file
    new.tokens.map Token.word = old.tokens.map Token.word ∧
      (∀ e ∈ new.errors, e.diagnostic.code = "L003") ∧
      new.errors = new.tokens.flatMap Token.escapeErrors ∧
      (old.tokens.flatMap Token.escapeErrors).Sublist old.errors ∧
      (new.errors.map (·.fault)).Sublist (old.errors.map (·.fault)) := by
  have standing : ∀ l ∈ lexemes source.toList, ∀ k v, l.piece = .token k v → l.Stands :=
    fun l hl k v h => stands_of_mem_lexemes hl h
  have reported := Scan.sublist_errors file {} standing
  have kept : ∀ l ∈ (lexemes source.toList).filter (·.word?.isSome), l.Stands := by
    intro l hl
    obtain ⟨hl, isToken⟩ := mem_filter.1 hl
    cases hp : l.piece with
    | token k v => exact standing l hl k v hp
    | blank | fault => simp [word?, hp] at isToken
  obtain ⟨ms, scanned, settled, words⟩ := lexemes_respaced gaps _ kept
  rw [← Scan.lexemes_withoutEnd source file] at scanned
  have same : ms.filterMap word? = (lexemes source.toList).filterMap word? := by
    rw [words, filterMap_filter]
    congr 1
    funext l
    cases l.word? <;> rfl
  intro old new
  have opened : new = Scan.ofLexemes file {} ms := by rw [← scanned]; rfl
  have tokens : new.tokens.map Token.word = old.tokens.map Token.word := by
    rw [opened, Scan.words_ofLexemes, same, ← Scan.words_ofLexemes file {}]
    rfl
  have errors : new.errors = new.tokens.flatMap Token.escapeErrors := by
    rw [opened]
    exact Scan.errors_of_settled file settled
  refine ⟨tokens, fun e he => ?_, errors, reported, ?_⟩
  · obtain ⟨t, -, ht⟩ := mem_flatMap.1 (errors ▸ he)
    exact t.code_escapeErrors e ht
  · rw [errors, Token.map_fault_flatMap, tokens, ← Token.map_fault_flatMap]
    exact reported.map _

end DynScript

import DynScript.Proofs.JoinedTexts
import DynScript.Proofs.WrittenData

/-!
# The words of written data

The text of data is scanned without an objection, and gives the words that the data would be written
with.

Main declarations: `Tree.Plain.spells`.
-/

namespace DynScript

open List Lexeme

/-! ### Words -/

/-- A token apart from its place. -/
structure Word where
  kind : TokenKind
  lexeme : String
  literal : Option Constant := none

/-- The word of a token. -/
def Token.word (t : Token) : Word :=
  ⟨t.kind, t.lexeme, t.literal⟩

namespace Lexeme

/-- The word that a lexeme is read as. -/
def word? (l : Lexeme) : Option Word :=
  match l.piece with
  | .token kind literal => some ⟨kind, String.ofList l.text, literal⟩
  | _ => none

/-- A lexeme without a fault. -/
def Sane (l : Lexeme) : Prop :=
  ∀ f, l.piece ≠ .fault f

/-- A lexeme that nothing is wrong with. -/
structure Clean (l : Lexeme) : Prop where
  escapes : l.escapes = []
  sane : l.Sane

lemma clean_blank (text) : Clean ⟨.blank, text, []⟩ :=
  ⟨rfl, fun _ h => Piece.noConfusion h⟩

lemma clean_token (k v text) : Clean ⟨.token k v, text, []⟩ :=
  ⟨rfl, fun _ h => Piece.noConfusion h⟩

lemma Clean.errors {l : Lexeme} (h : l.Clean) (file start) : l.errors file start = [] := by
  have sane := h.sane
  unfold Lexeme.errors
  rw [h.escapes]
  cases hp : l.piece with
  | fault f => exact absurd hp (sane f)
  | blank | token => rfl

end Lexeme

/-- In front of `more`, the text `cs` is scanned as the words `ws`, without an objection. -/
def Spells (cs : List Char) (ws : List Word) (more : List Char) : Prop :=
  ∃ ls, lexemes (cs ++ more) = ls ++ lexemes more ∧ (∀ l ∈ ls, l.Clean) ∧
    ls.filterMap word? = ws

namespace Spells

variable {cs ds more : List Char} {ws vs : List Word}

lemma nil (more) : Spells [] [] more :=
  ⟨[], rfl, forall_mem_nil _, rfl⟩

lemma append (h : Spells cs ws (ds ++ more)) (k : Spells ds vs more) :
    Spells (cs ++ ds) (ws ++ vs) more := by
  obtain ⟨ls, hl, cleanl, rfl⟩ := h
  obtain ⟨ms, hm, cleanm, rfl⟩ := k
  refine ⟨ls ++ ms, ?_, forall_mem_append.2 ⟨cleanl, cleanm⟩, filterMap_append ..⟩
  rw [append_assoc, hl, hm, append_assoc]

lemma one {c} {l} (h : first c (cs ++ more) = (l, more)) (hl : l.Clean) :
    Spells (c :: cs) l.word?.toList more := by
  refine ⟨[l], ?_, forall_mem_singleton.2 hl, ?_⟩
  · rw [cons_append, lexemes_cons, h]
    rfl
  · cases hw : l.word? <;> simp [hw]

lemma blank (more) : Spells [' '] [] more :=
  one rfl (clean_blank [' '])

end Spells

lemma Scan.words_ofLexemes (file start) (ls) :
    (Scan.ofLexemes file start ls).tokens.map Token.word =
      ls.filterMap word? ++ [⟨.endOfInput, "", none⟩] := by
  induction ls generalizing start with
  | nil => rfl
  | cons l ls ih =>
    have head : (l.token? file start).map Token.word = l.word? := by
      obtain ⟨piece, text, escapes⟩ := l
      cases piece <;> rfl
    simp only [Scan.ofLexemes, map_append, ih, filterMap_cons, ← head]
    cases l.token? file start <;> rfl

lemma Scan.errors_ofLexemes {file start ls} (h : ∀ l ∈ ls, l.Clean) :
    (Scan.ofLexemes file start ls).errors = [] := by
  induction ls generalizing start with
  | nil => rfl
  | cons l ls ih =>
    obtain ⟨head, tail⟩ := forall_mem_cons.1 h
    rw [Scan.ofLexemes, head.errors, ih tail]
    rfl

lemma Spells.scan {source : String} {ws} (h : Spells source.toList ws []) (file) :
    (scan source file).errors = [] ∧
      (scan source file).tokens.map Token.word = ws ++ [⟨.endOfInput, "", none⟩] := by
  obtain ⟨ls, hl, clean, rfl⟩ := h
  rw [append_nil] at hl
  have hl : lexemes source.toList = ls := hl.trans (append_nil _)
  unfold DynScript.scan
  rw [hl]
  exact ⟨Scan.errors_ofLexemes clean, Scan.words_ofLexemes file {} ls⟩

/-! ### Marks -/

/-- A character that is an operator or separator and begins nothing else, except with a further one. -/
structure Punctuation (c : Char) (k : TokenKind) : Prop where
  kind : TokenKind.ofChar? c = some k := by decide
  blank : isBlank c = false := by decide
  slash : c ≠ '/' := by decide
  lambda : c ≠ lambdaLetter := by decide
  digit : Number.isDigit c = false := by decide
  name : startsName c = false := by decide
  quote : c ≠ '"' := by decide

/-- A word of one character. -/
def Word.mark (kind : TokenKind) (c : Char) : Word :=
  ⟨kind, String.ofList [c], none⟩

variable {c d : Char} {parts : List (List Word)}

lemma Lexeme.comment_eq_none (hc : c ≠ '/') (cs : List Char) :
    cs.head?.bind (fun d => comment c d cs.tail) = none := by
  cases cs with
  | nil => rfl
  | cons d cs => simp [comment, hc]

variable {more : List Char}

lemma Spells.mark {k} (hc : Punctuation c k) (hm : ∀ d ∈ more.head?, TokenKind.ofPair? c d = none) :
    Spells [c] [.mark k c] more := by
  refine one ?_ (Lexeme.clean_token k none [c])
  have alone : operator c more = (⟨.token k none, [c], []⟩, more) := by
    cases more with
    | nil => simp only [operator, single, hc.kind]
    | cons d more => simp only [operator, single, hc.kind, hm d rfl]
  simp only [nil_append, first, hc.blank, Bool.false_eq_true, if_false,
    comment_eq_none hc.slash, hc.lambda, hc.digit, hc.name, hc.quote, alone]

lemma Spells.separator {k} (hc : Punctuation c k) (hp : ∀ d, TokenKind.ofPair? c d = none) (more) :
    Spells [c] [.mark k c] more :=
  mark hc fun d _ => hp d

/-! ### Texts -/

/-- The characters of a text between its quotation marks. -/
def escaped (cs : List Char) : List Char :=
  cs.flatMap fun c => if c = '\\' || c = '"' then ['\\', c] else [c]

lemma escaped_cons_special (hc : c = '\\' ∨ c = '"') (cs) :
    escaped (c :: cs) = '\\' :: c :: escaped cs := by
  simp [escaped, hc]

lemma escaped_cons_plain (hc : c ≠ '\\') (hq : c ≠ '"') (cs) :
    escaped (c :: cs) = c :: escaped cs := by
  simp [escaped, hc, hq]

lemma toList_quoteText (s) : (quoteText s).toList = '"' :: (escaped s.toList ++ ['"']) :=
  String.toList_ofList

lemma stringTail_escaped (cs) (n : Nat) (more) :
    stringTail n (escaped cs ++ '"' :: more) = ⟨cs, escaped cs ++ ['"'], [], some more⟩ := by
  induction cs generalizing n with
  | nil => rfl
  | cons c cs ih =>
    by_cases special : c = '\\' ∨ c = '"'
    · have value : unescape? c = some c := by rcases special with rfl | rfl <;> rfl
      simp only [escaped_cons_special special, cons_append, stringTail, ih, value]
    · obtain ⟨slash, quote⟩ := not_or.1 special
      rw [escaped_cons_plain slash quote, cons_append, stringTail.eq_5 _ _ _ quote
        (fun h => absurd h slash) (fun _ _ h => absurd h slash), ih]
      rfl

lemma Spells.text (s more) :
    Spells (quoteText s).toList [⟨.string, quoteText s, some (.text s)⟩] more := by
  rw [toList_quoteText]
  have whole : first '"' (escaped s.toList ++ ['"'] ++ more) =
      (⟨.token .string (some (.text s)), '"' :: (escaped s.toList ++ ['"']), []⟩, more) := by
    have literal : first '"' (escaped s.toList ++ '"' :: more) =
        stringLiteral (escaped s.toList ++ '"' :: more) := by
      rw [first, comment_eq_none (by decide)]
      rfl
    rw [append_assoc, singleton_append, literal, stringLiteral, stringTail_escaped]
    simp only [String.ofList_toList]
  have spelled := one whole (Lexeme.clean_token ..)
  simpa only [word?, ← toList_quoteText, String.ofList_toList, Option.toList_some] using spelled

/-! ### Numbers and names -/

lemma ordinary_of {p : Char → Bool}
    (hp : ([' ', '\t', '\r', '\n', '/', lambdaLetter].all fun d => !p d) = true) (h : p c) :
    isBlank c = false ∧ c ≠ '/' ∧ c ≠ lambdaLetter := by
  have other (d : Char) (hd : d ∈ [' ', '\t', '\r', '\n', '/', lambdaLetter]) : c ≠ d := by
    rintro rfl
    have no := all_eq_true.1 hp c hd
    rw [h] at no
    cases no
  refine ⟨?_, other _ (by simp), other _ (by simp)⟩
  simp [isBlank, other ' ', other '\t', other '\r', other '\n']

lemma isDigit_of_startsName (h : startsName c) : Number.isDigit c = false := by
  have nat (a b : Char) : a ≤ b ↔ a.toNat ≤ b.toNat := Iff.rfl
  refine Bool.eq_false_iff.2 fun digit => ?_
  simp only [startsName, Number.isDigit, nat, Bool.and_eq_true, decide_eq_true_eq, Bool.or_eq_true,
    Char.reduceToNat] at h digit
  rcases h with ((h | h) | rfl) | h
  · omega
  · omega
  · simp at digit
  · omega

/-- A text that goes on with a mark. -/
def Closing (more : List Char) : Prop :=
  ∃ c rest, more = c :: rest ∧ c ∈ [',', ']', '}', ';']

lemma Closing.ends (h : Closing more) :
    ∃ c rest, more = c :: rest ∧ Number.isDigit c = false ∧ c ≠ '.' ∧ continuesName c = false := by
  obtain ⟨c, rest, rfl, mark⟩ := h
  refine ⟨c, rest, rfl, ?_⟩
  simp only [mem_cons, not_mem_nil, or_false] at mark
  rcases mark with rfl | rfl | rfl | rfl <;> decide

lemma Spells.digits {ds more} (hd : ds ≠ []) (hs : ∀ c ∈ ds, Number.isDigit c) (hm : Closing more) :
    Spells ds [⟨.number, String.ofList ds, some (.number (Number.ofLiteral ds []))⟩] more := by
  obtain ⟨c, ds, rfl⟩ := exists_cons_of_ne_nil hd
  obtain ⟨d, rest, rfl, ends, point, -⟩ := hm.ends
  refine one ?_ (Lexeme.clean_token .number (some (.number (Number.ofLiteral (c :: ds) []))) (c :: ds))
  have digit := hs c mem_cons_self
  obtain ⟨blank, slash, lambda⟩ := ordinary_of (by decide) digit
  have whole : number (c :: (ds ++ d :: rest)) =
      (⟨.token .number (some (.number (Number.ofLiteral (c :: ds) []))), c :: ds, []⟩, d :: rest) := by
    have taken : (c :: (ds ++ d :: rest)).takeWhile Number.isDigit = c :: ds := by
      rw [← cons_append, takeWhile_append_cons ends, takeWhile_eq_self_iff.2 hs]
    have left : (c :: (ds ++ d :: rest)).dropWhile Number.isDigit = d :: rest := by
      rw [← cons_append, dropWhile_append_cons ends, dropWhile_eq_nil_iff.2 hs]
      rfl
    unfold number
    rw [taken, left]
    split
    · rename_i same
      exact absurd (List.cons.inj same).1 point
    · rfl
  simp only [first, blank, Bool.false_eq_true, if_false, comment_eq_none slash, lambda,
    digit, if_true, whole]

lemma Spells.word {cs : List Char} (hc : startsName c) (hs : cs.all continuesName)
    (hd : continuesName d = false) (more) :
    Spells (c :: cs) [⟨.ofWord (String.ofList (c :: cs)), String.ofList (c :: cs), none⟩]
      (d :: more) := by
  refine one ?_ (Lexeme.clean_token (.ofWord (String.ofList (c :: cs))) none (c :: cs))
  obtain ⟨blank, slash, lambda⟩ := ordinary_of (by decide) hc
  have all : ∀ e ∈ c :: cs, continuesName e :=
    forall_mem_cons.2 ⟨by simp [continuesName, hc], all_eq_true.1 hs⟩
  have whole : Lexeme.word (c :: (cs ++ d :: more)) =
      (⟨.token (.ofWord (String.ofList (c :: cs))) none, c :: cs, []⟩, d :: more) := by
    unfold Lexeme.word
    rw [← cons_append, takeWhile_append_cons hd, dropWhile_append_cons hd,
      takeWhile_eq_self_iff.2 all, dropWhile_eq_nil_iff.2 all]
    rfl
  simp only [first, blank, Bool.false_eq_true, if_false, comment_eq_none slash, lambda,
    isDigit_of_startsName hc, hc, if_true, whole]

/-- A text that is read as a name. -/
def IsName (s : String) : Prop :=
  lexemes s.toList = [⟨.token .identifier none, s.toList, []⟩]

lemma Lexeme.piece_comment {cs rest} {l} (h : comment c d cs = some (l, rest)) (k v) :
    l.piece ≠ .token k v := by
  unfold comment at h
  split at h
  · cases h
    exact fun h => Piece.noConfusion h
  · split at h
    · split at h <;> cases h <;> exact fun h => Piece.noConfusion h
    · cases h

lemma Lexeme.piece_number (cs v) : (number cs).1.piece ≠ .token .identifier v := by
  unfold number
  split
  · dsimp only
    split <;> rintro ⟨⟩
  · rintro ⟨⟩

lemma Lexeme.piece_stringLiteral (cs v) :
    (stringLiteral cs).1.piece ≠ .token .identifier v := by
  unfold stringLiteral
  dsimp only
  split <;> rintro ⟨⟩

lemma Lexeme.piece_operator (c cs v) : (operator c cs).1.piece ≠ .token .identifier v := by
  have single : (single c).piece ≠ .token .identifier v := by
    unfold single TokenKind.ofChar?
    split
    · rename_i k hk
      intro same
      cases same
      split at hk <;> cases hk
    · rintro ⟨⟩
  unfold operator
  split
  · exact single
  · split
    · rename_i hk
      intro same
      cases same
      unfold TokenKind.ofPair? at hk
      split at hk <;> cases hk
    · exact single

lemma Lexeme.first_of_identifier {cs v} (h : (first c cs).1.piece = .token .identifier v) :
    startsName c ∧ first c cs = Lexeme.word (c :: cs) := by
  unfold first at h ⊢
  split at h
  · cases h
  · split at h
    · rename_i l found
      obtain ⟨d, -, comment⟩ := Option.bind_eq_some_iff.1 found
      exact absurd h (piece_comment comment _ _)
    · split at h
      · cases h
      · split at h
        · exact absurd h (piece_number _ v)
        · rename_i blank _ _ lambda digit
          split at h
          · rename_i name
            exact ⟨name, by simp only [if_neg blank, if_neg lambda, if_neg digit, if_pos name]⟩
          · split at h
            · exact absurd h (piece_stringLiteral cs v)
            · exact absurd h (piece_operator c cs v)

lemma IsName.spells {s} (h : IsName s) (hd : continuesName d = false) (more) :
    Spells s.toList [⟨.identifier, s, none⟩] (d :: more) := by
  unfold IsName at h
  cases hs : s.toList with
  | nil =>
    rw [hs] at h
    cases h
  | cons c cs =>
    rw [hs, lexemes_cons] at h
    obtain ⟨start, word⟩ := first_of_identifier (congrArg Lexeme.piece (List.cons.inj h).1)
    rw [word] at h
    have lexeme := (List.cons.inj h).1
    have all : ∀ e ∈ c :: cs, continuesName e :=
      takeWhile_eq_self_iff.1 (congrArg text lexeme)
    have kind : TokenKind.ofWord s = .identifier := by
      have piece := congrArg Lexeme.piece lexeme
      simp only [Lexeme.word, Piece.token.injEq, and_true] at piece
      rwa [takeWhile_eq_self_iff.2 all, ← hs, String.ofList_toList] at piece
    have spelled := Spells.word start (all_eq_true.2 (forall_mem_cons.1 all).2) hd more
    rwa [← hs, String.ofList_toList, kind, hs] at spelled

/-! ### Data that can be written down -/

/-- A constant that can be written down: a number has to be an integer. -/
def Constant.Plain : Constant → Prop
  | .number x => ∃ n, Number.Whole x n
  | _ => True

/-- Data that can be written down: each of its constants can, and the fields of its records have
different names. -/
inductive Tree.Plain : Tree → Prop where
  | constant {c : Constant} (hc : c.Plain) : Plain (.constant c)
  | array {l} (hl : ∀ t ∈ l, Plain t) : Plain (.array l)
  | record {l : List (String × Tree)} (hk : (l.map (·.1)).Nodup) (hn : ∀ f ∈ l, IsName f.1)
    (hl : ∀ f ∈ l, Plain f.2) : Plain (.record l)

/-- The words of an integer. -/
def integerWords (n : Int) : List Word :=
  (if n < 0 then [.mark .minus '-'] else []) ++
    [⟨.number, String.ofList (Nat.toDigits 10 n.natAbs),
      some (.number (Number.ofLiteral (Nat.toDigits 10 n.natAbs) []))⟩]

/-- The words of a constant. -/
def Constant.words : Constant → List Word
  | .null => [⟨.kwNull, "null", none⟩]
  | .bool true => [⟨.kwTrue, "true", none⟩]
  | .bool false => [⟨.kwFalse, "false", none⟩]
  | .number x => integerWords ((Number.toInt? x).getD 0)
  | .text s => [⟨.string, quoteText s, some (.text s)⟩]

/-- Words separated by commas. -/
def Word.listed (parts : List (List Word)) : List Word :=
  [Word.mark .comma ','].intercalate parts

lemma Word.listed_singleton (ws) : Word.listed [ws] = ws :=
  intercalate_singleton

lemma Word.listed_cons_cons (ws vs parts) :
    Word.listed (ws :: vs :: parts) = ws ++ .mark .comma ',' :: Word.listed (vs :: parts) := by
  rw [listed, intercalate_cons_cons, append_assoc]
  rfl

lemma Word.length_le_listed {ws} (h : ws ∈ parts) : ws.length ≤ (listed parts).length := by
  induction parts with
  | nil => cases h
  | cons vs parts ih =>
    cases parts with
    | nil =>
      rw [mem_singleton.1 h, listed_singleton]
    | cons us parts =>
      rw [listed_cons_cons, length_append, length_cons]
      rcases mem_cons.1 h with rfl | h
      · omega
      · have := ih h
        omega

lemma Word.length_parts_le (h : ∀ ws ∈ parts, ws ≠ []) :
    parts.length ≤ (listed parts).length := by
  induction parts with
  | nil => exact Nat.zero_le _
  | cons vs parts ih =>
    obtain ⟨head, tail⟩ := forall_mem_cons.1 h
    have some := length_pos_iff.2 head
    cases parts with
    | nil =>
      rw [listed_singleton]
      exact some
    | cons us parts =>
      have := ih tail
      simp only [listed_cons_cons, length_append, length_cons] at this ⊢
      omega

namespace Tree

/-- The words that a tree is written with. -/
def words : Tree → List Word
  | .constant c => c.words
  | .array l => .mark .leftBracket '[' :: (Word.listed (itemWords l) ++ [.mark .rightBracket ']'])
  | .record l => .mark .leftBrace '{' :: (Word.listed (fieldWords l) ++ [.mark .rightBrace '}'])
where
  /-- The words of the items of an array. -/
  itemWords : List Tree → List (List Word)
    | [] => []
    | t :: l => words t :: itemWords l
  /-- The words of the fields of a record. -/
  fieldWords : List (String × Tree) → List (List Word)
    | [] => []
    | (name, t) :: l => (⟨.identifier, name, none⟩ :: .mark .colon ':' :: words t) :: fieldWords l

@[simp] lemma itemWords_eq (l) : words.itemWords l = l.map words := by
  induction l with
  | nil => rfl
  | cons t l ih => simp [words.itemWords, ih]

@[simp] lemma fieldWords_eq (l) : words.fieldWords l =
    l.map fun f => ⟨.identifier, f.1, none⟩ :: .mark .colon ':' :: f.2.words := by
  induction l with
  | nil => rfl
  | cons f l ih => simp [words.fieldWords, ih]

end Tree

lemma ofPair?_minus (hd : Number.isDigit d) : TokenKind.ofPair? '-' d = none := by
  unfold TokenKind.ofPair?
  split <;> first | rfl | exact absurd hd (by decide)

lemma Spells.integer (n : Int) (hm : Closing more) :
    Spells (Number.integerText n).toList (integerWords n) more := by
  have isDigit (c : Char) : c ∈ Nat.toDigits 10 n.natAbs → Number.isDigit c :=
    Number.isDigit_of_mem_toDigits
  have digits := Spells.digits Nat.toDigits_ne_nil isDigit hm
  unfold Number.integerText integerWords
  rw [String.toList_ofList]
  by_cases negative : n < 0
  · rw [if_pos negative, if_pos negative]
    refine append (mark {} fun d hd => ofPair?_minus (isDigit d ?_)) digits
    rw [head?_append_of_ne_nil _ Nat.toDigits_ne_nil] at hd
    exact mem_of_mem_head? hd
  · rw [if_neg negative, if_neg negative]
    exact digits

lemma Constant.Plain.spells {c : Constant} (hc : c.Plain) (hm : Closing more) :
    Spells c.quoted.toList c.words more := by
  have word (c : Char) (cs : List Char) (hc : startsName c) (hs : cs.all continuesName) :
      Spells (c :: cs) [⟨.ofWord (String.ofList (c :: cs)), String.ofList (c :: cs), none⟩] more := by
    obtain ⟨d, rest, rfl, -, -, ends⟩ := hm.ends
    exact .word hc hs ends rest
  cases c with
  | null => exact word 'n' ['u', 'l', 'l'] (by decide) (by decide)
  | bool b =>
    cases b with
    | true => exact word 't' ['r', 'u', 'e'] (by decide) (by decide)
    | false => exact word 'f' ['a', 'l', 's', 'e'] (by decide) (by decide)
  | number x =>
    obtain ⟨n, hn⟩ := hc
    rw [quoted, words, hn.text, hn.value]
    exact .integer n hm
  | text s => exact .text s more

lemma Spells.comma (more) : Spells [',', ' '] [.mark .comma ','] more :=
  (separator {} (fun _ => rfl) _).append (blank more)

lemma Spells.listed {α : Type} {l : List α} {f : α → String} {g : α → List Word}
    (hl : ∀ a ∈ l, ∀ more, Closing more → Spells (f a).toList (g a) more)
    (hm : Closing more) :
    Spells (", ".intercalate (l.map f)).toList (Word.listed (l.map g)) more := by
  induction l with
  | nil => exact nil more
  | cons a l ih =>
    obtain ⟨head, tail⟩ := forall_mem_cons.1 hl
    cases l with
    | nil =>
      rw [map_singleton, map_singleton, String.intercalate_singleton,
        Word.listed_singleton]
      exact head more hm
    | cons b l =>
      have rest := ih tail
      simp only [map_cons, String.intercalate_cons_cons, Word.listed_cons_cons,
        String.toList_append, append_assoc] at rest ⊢
      exact append (head _ ⟨',', _, rfl, by decide⟩) (append (comma _) rest)

/-- **The text of data is scanned as its words.** -/
theorem Tree.Plain.spells {t : Tree} (ht : t.Plain) (hm : Closing more) :
    Spells t.text.toList t.words more := by
  -- What stands between brackets or braces, which are read by themselves.
  have enclosed {o c : Char} {k k' : TokenKind} (ho : Punctuation o k) (hc : Punctuation c k')
      (hop : ∀ d, TokenKind.ofPair? o d = none) (hcp : ∀ d, TokenKind.ofPair? c d = none)
      {cs : List Char} {ws : List Word} {more : List Char} (h : Spells cs ws (c :: more)) :
      Spells ([o] ++ cs ++ [c]) (.mark k o :: (ws ++ [.mark k' c])) more := by
    have := ((Spells.separator ho hop _).append h).append (.separator hc hcp more)
    simpa only [singleton_append, cons_append, nil_append] using this
  induction ht generalizing more with
  | constant hc => exact hc.spells hm
  | array hl ih =>
    rw [text, words, texts_eq, itemWords_eq, String.toList_append, String.toList_append]
    refine enclosed {} {} (fun _ => rfl) (fun _ => rfl) (.listed (fun t ht more hm => ih t ht hm) ?_)
    exact ⟨']', more, rfl, by decide⟩
  | record hk hn hl ih =>
    rw [text, words, fieldTexts_eq, fieldWords_eq, String.toList_append, String.toList_append]
    refine enclosed {} {} (fun _ => rfl) (fun _ => rfl) (.listed (fun f hf more hm => ?_) ?_)
    · rw [String.toList_append, String.toList_append]
      have colon : Spells [':', ' '] [.mark .colon ':'] (f.2.text.toList ++ more) :=
        (Spells.separator {} (fun _ => rfl) _).append (.blank _)
      exact .append (.append ((hn f hf).spells (by decide) _) colon) (ih f hf hm)
    · exact ⟨'}', more, rfl, by decide⟩

/-! ### A declaration with data in it -/

/-- The declaration of a variable with a written value. -/
def declarationOf (value : String) : String :=
  "var x = " ++ value ++ ";"

/-- The words of a variable declared with a value. -/
def declarationWords (ws : List Word) : List Word :=
  ⟨.kwVar, "var", none⟩ :: ⟨.identifier, "x", none⟩ :: .mark .assign '=' ::
    (ws ++ [.mark .semicolon ';'])

lemma Tree.Plain.spells_declaration {t : Tree} (ht : t.Plain) :
    Spells (declarationOf t.text).toList (declarationWords t.words) [] := by
  rw [declarationOf, String.toList_append, String.toList_append, append_assoc]
  have value : Spells (t.text.toList ++ [';']) (t.words ++ [.mark .semicolon ';']) [] :=
    .append (ht.spells ⟨';', [], rfl, by decide⟩) (.separator {} (fun _ => rfl) [])
  have var (more : List Char) : Spells ['v', 'a', 'r'] [⟨.kwVar, "var", none⟩] (' ' :: more) :=
    .word (by decide) (by decide) (by decide) more
  have name (more : List Char) : Spells ['x'] [⟨.identifier, "x", none⟩] (' ' :: more) :=
    .word (by decide) (by decide) (by decide) more
  have assign (more : List Char) : Spells ['='] [.mark .assign '='] (' ' :: more) :=
    .mark {} fun d hd => by cases hd; rfl
  exact (var _).append ((Spells.blank _).append ((name _).append ((Spells.blank _).append
    ((assign _).append ((Spells.blank _).append value)))))

lemma Word.mem_listed {x} (h : x ∈ listed parts) :
    x = .mark .comma ',' ∨ ∃ ws ∈ parts, x ∈ ws := by
  induction parts with
  | nil => cases h
  | cons ws parts ih =>
    cases parts with
    | nil =>
      rw [listed_singleton] at h
      exact .inr ⟨ws, mem_singleton_self ws, h⟩
    | cons vs parts =>
      rw [listed_cons_cons] at h
      rcases mem_append.1 h with h | h
      · exact .inr ⟨ws, mem_cons_self, h⟩
      · rcases mem_cons.1 h with h | h
        · exact .inl h
        · obtain h | ⟨us, hus, h⟩ := ih h
          · exact .inl h
          · exact .inr ⟨us, mem_cons_of_mem ws hus, h⟩

lemma Tree.kind_ne_label (t : Tree) : ∀ x ∈ t.words, x.kind ≠ .kwLabel := by
  induction t using Tree.induction with
  | constant c =>
    cases c with
    | null | text => simp [words, Constant.words]
    | bool b => cases b <;> simp [words, Constant.words]
    | number x =>
      rw [words, Constant.words, integerWords]
      split <;> simp [Word.mark]
  | array l ih =>
    intro x hx
    rw [words, itemWords_eq] at hx
    simp only [mem_cons, mem_append, not_mem_nil, or_false] at hx
    obtain rfl | hx | rfl := hx
    · decide
    · obtain rfl | ⟨ws, hws, hx⟩ := Word.mem_listed hx
      · decide
      · obtain ⟨t, ht, rfl⟩ := mem_map.1 hws
        exact ih t ht x hx
    · decide
  | record l ih =>
    intro x hx
    rw [words, fieldWords_eq] at hx
    simp only [mem_cons, mem_append, not_mem_nil, or_false] at hx
    obtain rfl | hx | rfl := hx
    · decide
    · obtain rfl | ⟨ws, hws, hx⟩ := Word.mem_listed hx
      · decide
      · obtain ⟨f, hf, rfl⟩ := mem_map.1 hws
        simp only [mem_cons] at hx
        obtain rfl | rfl | hx := hx
        · exact (by decide : TokenKind.identifier ≠ .kwLabel)
        · decide
        · exact ih f hf x hx
    · decide

lemma kind_ne_label_declaration (t : Tree) :
    ∀ x ∈ declarationWords t.words, x.kind ≠ .kwLabel := by
  intro x hx
  simp only [declarationWords, mem_cons, mem_append, not_mem_nil, or_false] at hx
  obtain rfl | rfl | rfl | hx | rfl := hx
  · decide
  · decide
  · decide
  · exact t.kind_ne_label x hx
  · decide

end DynScript

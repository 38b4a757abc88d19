import DynScript.Proofs.OperatorGrammar
import DynScript.Proofs.Renumbering
import DynScript.Proofs.WrittenWords

/-!
# The code of written data

The words of data are parsed as an expression that builds the data: constants, some of them negated, in
arrays and records.

Main declarations: `Tree.Plain.read`, `Tree.Plain.compile`.
-/

namespace DynScript

open List ParseResult Grammar

/-! ### Expressions that build data -/

/-- An expression that is written for a tree.  What is put into a container is boxed. -/
inductive Expr.Builds : Expr → Tree → Prop where
  | literal (c : Constant) (place : Location) : Builds (.literal c place) (.constant c)
  | negated (x : Float) (inner place : Location) :
    Builds (.unary .negate (.literal (.number x) inner) place) (.constant (.number (-x)))
  | array {items : List Expr} {l} (place : Location) (hl : Forall₂ Builds items l) :
    Builds (.array (items.map Expr.boxed) place) (.array l)
  | record {values : List Expr} {fields : List (String × Expr)} {l : List (String × Tree)}
    (self : Slot) (place : Location) (hk : fields.map (·.1) = l.map (·.1))
    (hv : fields.map (·.2) = values.map Expr.boxed)
    (hl : Forall₂ Builds values (l.map (·.2))) : Builds (.record fields self place) (.record l)

/-! ### Reading words -/

/-- From `s` to `u` tokens have been read, up to `tail`, and no more than numbers of slots have been
used up. -/
structure ParseState.Across (s u : ParseState) (tail : List Token) : Prop where
  rest : u.rest = tail
  errors : u.errors = s.errors
  scopes : ∃ n, u.scopes = { s.scopes with nextSlot := n }

namespace ParseState.Across

variable {s u v : ParseState} {w tail tail' : List Token}

lemma past (s : ParseState) (w tail) : s.Across (s.past w tail) tail :=
  ⟨rfl, rfl, s.scopes.nextSlot, rfl⟩

lemma trans (h : s.Across u tail) (k : u.Across v tail') : s.Across v tail' := by
  obtain ⟨n, hn⟩ := h.scopes
  obtain ⟨m, hm⟩ := k.scopes
  exact ⟨k.rest, k.errors.trans h.errors, m, by rw [hm, hn]⟩

end ParseState.Across

/-- The parser `p` reads tokens for the words `ws`, in front of a token that continues nothing, and
gives what has the property `P`. -/
def ReadsAs {α : Type} (c : ParseContext) (p : Parse α) (ws : List Word) (P : α → Prop) : Prop :=
  ∀ (s : ParseState) (w tail : List Token), s.rest = w ++ tail → w.map Token.word = ws →
    (tail.headD c.eof).kind.precedence = 0 → ∃ a u, p.run c s = .ok a u ∧ s.Across u tail ∧ P a

namespace Grammar

open Parse ParseState

variable {c : ParseContext} {g : Grammar} {s u : ParseState} {e : Expr}

/-! ### Through the levels -/

lemma run_rule_of_item {n m : Nonterminal} (hm : n.item = some m) (hb : c.bound ≠ 0)
    (hu : (u.rest.headD c.eof).kind.precedence = 0) (h : (m.rule g).run c s = .ok e u) :
    (n.rule g).run c s = .ok e u := by
  obtain ⟨k, hk⟩ := Nat.exists_eq_succ_of_ne_zero hb
  have low : (u.rest.headD c.eof).kind.precedence < n.rank := by
    rw [hu]
    cases n <;> decide
  rw [Nonterminal.rule_eq_loop hm]
  simp only [run_bind, run_rounds, andThen_ok, hk, h]
  exact run_loop_stop hm low

section

variable (hb : c.bound ≠ 0)
include hb

lemma run_conditional_of_prefixed
    (hu : (u.rest.headD c.eof).kind.precedence = 0) (h : g.prefixed.run c s = .ok e u) :
    g.conditional.run c s = .ok e u := by
  have factor := run_rule_of_item (n := .factor) (m := .unary) rfl hb hu h
  have term := run_rule_of_item (n := .term) rfl hb hu factor
  have bitShift := run_rule_of_item (n := .bitShift) rfl hb hu term
  have bitLogic := run_rule_of_item (n := .bitLogic) rfl hb hu bitShift
  have comparison := run_rule_of_item (n := .comparison) rfl hb hu bitLogic
  have equality := run_rule_of_item (n := .equality) rfl hb hu comparison
  have logicAnd := run_rule_of_item (n := .logicAnd) rfl hb hu equality
  have logicOr := run_rule_of_item (n := .logicOr) rfl hb hu logicAnd
  have logicXor : (g.leveled levels).run c s = .ok e u :=
    run_rule_of_item (n := .logicXor) rfl hb hu logicOr
  have update : updateOf? (u.rest.headD c.eof).kind = none := by
    revert hu
    cases (u.rest.headD c.eof).kind <;> simp [TokenKind.precedence, updateOf?]
  have question : (u.rest.headD c.eof).kind ≠ .question := by
    intro same
    rw [same] at hu
    cases hu
  simp only [conditional, assigned, run_bind, andThen_ok, run_peek, logicXor, update,
    run_pure, run_accept?_none question]

lemma run_prefixed_of_base
    (hs : unaryOf? (s.rest.headD c.eof).kind = none ∧ stepOf? (s.rest.headD c.eof).kind = none)
    (hu : (u.rest.headD c.eof).kind.precedence = 0) (h : g.base.run c s = .ok e u) :
    g.prefixed.run c s = .ok e u := by
  have suffixed : g.suffixed.run c s = .ok e u :=
    run_rule_of_item (n := .callable) (m := .tuple) rfl hb hu h
  simp only [prefixed, run_bind, andThen_ok, run_peek, hs.1, hs.2, suffixed]

lemma run_conditional_of_base
    (hs : unaryOf? (s.rest.headD c.eof).kind = none ∧ stepOf? (s.rest.headD c.eof).kind = none)
    (hu : (u.rest.headD c.eof).kind.precedence = 0) (h : g.base.run c s = .ok e u) :
    g.conditional.run c s = .ok e u :=
  run_conditional_of_prefixed hb hu (run_prefixed_of_base hb hs hu h)

/-! ### Constants -/

/-- What a word stands for that is a constant by itself. -/
def constant? (w : Word) : Option Constant :=
  match w.kind with
  | .kwNull => some .null
  | .kwTrue => some (.bool true)
  | .kwFalse => some (.bool false)
  | .number | .string => some (w.literal.getD .null)
  | _ => none

lemma run_prefixed_constant {t tail} {k} (hr : s.rest = t :: tail) (hk : constant? t.word = some k)
    (hp : (tail.headD c.eof).kind.precedence = 0) :
    g.prefixed.run c s = .ok (.literal k t.location) (s.past [t] tail) := by
  have head : s.rest.headD c.eof = t := by rw [hr]; rfl
  have other (kind : TokenKind) (h : ∀ l v, constant? ⟨kind, l, v⟩ = none) :
      (accept? kind).run c s = .ok none s := by
    refine run_accept?_none fun same => ?_
    rw [head] at same
    rw [Token.word, same, h] at hk
    cases hk
  refine run_prefixed_of_base hb ?_ hp ?_
  · rw [head]
    unfold constant? Token.word at hk
    split at hk <;> rename_i kind <;> cases hk
    all_goals
      dsimp only at kind
      rw [kind]
      exact ⟨rfl, rfl⟩
  · simp only [base, operand, accept, run_bind, andThen_ok, run_pure,
      other .dollar fun _ _ => rfl, other .leftBracket fun _ _ => rfl,
      other .leftBrace fun _ _ => rfl, other .kwFun fun _ _ => rfl, Option.isSome_none,
      Bool.false_eq_true, if_false, primary, run_peek, head]
    unfold constant? Token.word at hk
    split at hk <;> rename_i kind <;> cases hk
    all_goals
      dsimp only at kind
      simp only [kind, run_bind, run_advance_past hr, andThen_ok, run_pure]

lemma reads_constant {x k} (hk : constant? x = some k) :
    ReadsAs c g.conditional [x] (·.Builds (.constant k)) := by
  intro s w tail hr hw hp
  obtain ⟨t, rfl, rfl⟩ := map_eq_singleton_iff.1 hw
  have read := run_prefixed_constant (g := g) hb hr hk hp
  exact ⟨_, _, run_conditional_of_prefixed hb hp read, .past .., .literal k t.location⟩

lemma reads_integer {n : Int} {depth : Nat} (hd : n < 0 → depth ≠ 0) {x} (hx : Number.Whole x n) :
    ReadsAs c (unrolled depth).conditional (integerWords n)
      (·.Builds (.constant (.number x))) := by
  have value := hx.read
  unfold integerWords
  by_cases negative : n < 0
  · rw [if_pos negative] at value ⊢
    intro s w tail hr hw hp
    obtain ⟨sign, w, rfl, hs, hw⟩ := map_eq_cons_iff.1 hw
    obtain ⟨t, rfl, ht⟩ := map_eq_singleton_iff.1 hw
    obtain ⟨depth, rfl⟩ := Nat.exists_eq_succ_of_ne_zero (hd negative)
    have minus : Signs sign.kind .negate := by
      rw [show sign.kind = .minus from congrArg Word.kind hs]
      exact .negate
    have known : constant? t.word =
        some (.number (Number.ofLiteral (Nat.toDigits 10 n.natAbs) [])) := by rw [ht]; rfl
    have operand : Parses c (unrolled (depth + 1)).unary 1 [t] _ := fun s tail hr hp =>
      run_prefixed_constant (g := .unrolled depth) hb hr known (Nat.lt_one_iff.1 hp)
    have read := reads_signed minus operand s tail hr (Nat.lt_one_iff.2 hp)
    refine ⟨_, _, run_conditional_of_prefixed hb hp read, .past .., ?_⟩
    rw [value]
    exact .negated ..
  · rw [if_neg negative] at value ⊢
    rw [value]
    exact reads_constant hb rfl

end

/-! ### Lists -/

section Lists

variable {α ι : Type} {p : Parse α} {words : ι → List Word} {P : α → ι → Prop} {l : List ι}

lemma run_commaSeparated (hl : ∀ i ∈ l, ReadsAs c p (words i) (P · i)) (hne : l ≠ []) {fuel : Nat}
    (hf : l.length ≤ fuel) {s : ParseState} {w tail} (hr : s.rest = w ++ tail)
    (hw : w.map Token.word = Word.listed (l.map words))
    (hp : (tail.headD c.eof).kind.precedence = 0) (hc : (tail.headD c.eof).kind ≠ .comma) :
    ∃ as u, (commaSeparated p fuel).run c s = .ok as u ∧ s.Across u tail ∧ Forall₂ P as l := by
  induction l generalizing fuel s w with
  | nil => exact absurd rfl hne
  | cons i l ih =>
    obtain ⟨head, others⟩ := forall_mem_cons.1 hl
    obtain ⟨fuel, rfl⟩ : ∃ k, fuel = k + 1 := ⟨fuel - 1, by simp at hf; omega⟩
    cases l with
    | nil =>
      rw [map_singleton, Word.listed_singleton] at hw
      obtain ⟨a, u, read, across, ha⟩ := head s w tail hr hw hp
      have last : (u.rest.headD c.eof).kind ≠ .comma := by rwa [across.rest]
      refine ⟨[a], u, ?_, across, .cons ha .nil⟩
      simp only [commaSeparated, accept, run_bind, read, andThen_ok, run_accept?_none last,
        run_pure, Option.isSome_none, Bool.false_eq_true, if_false]
    | cons j l =>
      rw [map_cons, map_cons, Word.listed_cons_cons] at hw
      obtain ⟨w, v, rfl, hi, hv⟩ := map_eq_append_iff.1 hw
      obtain ⟨comma, v, rfl, hcomma, hv⟩ := map_eq_cons_iff.1 hv
      have kind : comma.kind = .comma := congrArg Word.kind hcomma
      rw [append_assoc, cons_append] at hr
      obtain ⟨a, u, read, across, ha⟩ := head s w _ hr hi (by simp [kind, TokenKind.precedence])
      obtain ⟨as, u', reads, across', has⟩ := ih others (cons_ne_nil _ _)
        (Nat.le_of_succ_le_succ hf) (s := u.past [comma] (v ++ tail)) rfl hv
      refine ⟨a :: as, u', ?_, (across.trans (.past ..)).trans across', .cons ha has⟩
      simp only [commaSeparated, accept, run_bind, read, andThen_ok,
        run_accept?_cons across.rest kind, run_pure, Option.isSome_some, if_true, reads]

lemma run_listed (hl : ∀ i ∈ l, ReadsAs c p (words i) (P · i)) (hb : l.length ≤ c.bound)
    {s : ParseState} {w tail t} (hr : s.rest = w ++ t :: tail)
    (hw : w.map Token.word = Word.listed (l.map words)) {close} (ht : t.kind = close)
    (hp : close.precedence = 0) (hc : close ≠ .comma)
    (hh : ∀ i ∈ l, ∃ x r, words i = x :: r ∧ x.kind ≠ close) :
    ∃ as u, (listed p close).run c s = .ok as u ∧ s.Across u (t :: tail) ∧ Forall₂ P as l := by
  cases l with
  | nil =>
    obtain rfl : w = [] := map_eq_nil_iff.1 hw
    have closed : (s.rest.head?.any fun x => x.kind = close) = true := by simp [hr, ht]
    refine ⟨[], s, ?_, ⟨hr, rfl, _, rfl⟩, .nil⟩
    simp only [listed, run_bind, run_check, andThen_ok, closed, if_true, run_pure]
  | cons i l =>
    -- The first word of the first item is not the closing one.
    have first : (s.rest.head?.any fun x => x.kind = close) = false := by
      obtain ⟨x, r, hx, other⟩ := hh i mem_cons_self
      have begins : ∃ r, w.map Token.word = x :: r := by
        cases l with
        | nil => exact ⟨r, by rw [hw, map_singleton, Word.listed_singleton, hx]⟩
        | cons j l =>
          rw [hw, map_cons, map_cons, Word.listed_cons_cons, hx]
          exact ⟨_, rfl⟩
      obtain ⟨r', begins⟩ := begins
      obtain ⟨y, w', rfl, rfl, -⟩ := map_eq_cons_iff.1 begins
      have other : y.kind ≠ close := other
      simpa [hr] using other
    have open' : (t :: tail).headD c.eof = t := rfl
    obtain ⟨as, u, reads, across, has⟩ := run_commaSeparated hl (cons_ne_nil _ _) hb hr hw
      (by rw [open', ht, hp]) (by rwa [open', ht])
    refine ⟨as, u, ?_, across, has⟩
    simp only [listed, run_bind, run_check, andThen_ok, first, Bool.false_eq_true, if_false,
      run_rounds, reads]

end Lists

/-! ### Arrays and records -/

/-- A boxed expression that builds a tree. -/
def BuildsBoxed (e : Expr) (t : Tree) : Prop :=
  ∃ inner : Expr, e = inner.boxed ∧ inner.Builds t

lemma exists_boxed {es l} (h : Forall₂ BuildsBoxed es l) :
    ∃ items, es = items.map Expr.boxed ∧ Forall₂ Expr.Builds items l := by
  induction h with
  | nil => exact ⟨[], rfl, .nil⟩
  | cons head _ ih =>
    obtain ⟨e, rfl, he⟩ := head
    obtain ⟨items, rfl, hi⟩ := ih
    exact ⟨e :: items, rfl, .cons he hi⟩

lemma reads_boxed {ws t} (h : ReadsAs c g.expression ws (·.Builds t)) :
    ReadsAs c (Expr.boxed <$> g.expression) ws (BuildsBoxed · t) := by
  intro s w tail hr hw hp
  obtain ⟨e, u, read, across, he⟩ := h s w tail hr hw hp
  refine ⟨e.boxed, u, ?_, across, e, rfl, he⟩
  simp only [run_map, read, andThen_ok]

lemma reads_field {name} {t : Tree} (h : ReadsAs c g.expression t.words (·.Builds t)) :
    ReadsAs c g.recordField (⟨.identifier, name, none⟩ :: .mark .colon ':' :: t.words)
      fun f => f.1 = name ∧ BuildsBoxed f.2 t := by
  intro s w tail hr hw hp
  obtain ⟨x, w, rfl, hx, hw⟩ := map_eq_cons_iff.1 hw
  obtain ⟨y, w, rfl, hy, hw⟩ := map_eq_cons_iff.1 hw
  have identifier : x.kind = .identifier := congrArg Word.kind hx
  have colon : y.kind = .colon := congrArg Word.kind hy
  obtain ⟨e, u, read, across, he⟩ := h ((s.past [x] (y :: (w ++ tail))).past [y] (w ++ tail)) w tail
    rfl hw hp
  refine ⟨(x.lexeme, e.boxed), u, ?_, ((Across.past ..).trans (.past ..)).trans across,
    congrArg Word.lexeme hx, e, rfl, he⟩
  have key : fieldName.run c s = .ok x.lexeme (s.past [x] (y :: (w ++ tail))) := by
    simp only [fieldName, run_bind, run_accept?_cons hr identifier, andThen_ok, run_pure]
    rfl
  simp only [recordField, run_bind, key, andThen_ok, run_pure,
    run_expect_past (s := s.past [x] (y :: (w ++ tail))) rfl colon, read]

lemma exists_words_eq_cons (t : Tree) :
    ∃ x r, t.words = x :: r ∧ x.kind ≠ .rightBracket := by
  cases t with
  | array l => exact ⟨_, _, rfl, by decide⟩
  | record l => exact ⟨_, _, rfl, by decide⟩
  | constant c =>
    cases c with
    | null => exact ⟨_, _, rfl, by decide⟩
    | text s => exact ⟨_, _, rfl, TokenKind.noConfusion⟩
    | bool b => cases b <;> exact ⟨_, _, rfl, by decide⟩
    | number x =>
      rw [Tree.words, Constant.words, integerWords]
      split <;> exact ⟨_, _, rfl, TokenKind.noConfusion⟩

lemma reads_array {l : List Tree} (hb : l.length < c.bound)
    (hl : ∀ t ∈ l, ReadsAs c g.expression t.words (·.Builds t)) :
    ReadsAs c g.conditional (Tree.array l).words (·.Builds (.array l)) := by
  intro s w tail hr hw hp
  rw [Tree.words, Tree.itemWords_eq] at hw
  obtain ⟨opening, v, rfl, ho, hv⟩ := map_eq_cons_iff.1 hw
  obtain ⟨w, v, rfl, hi, hv⟩ := map_eq_append_iff.1 hv
  obtain ⟨closing, rfl, hc⟩ := map_eq_singleton_iff.1 hv
  have bracket : opening.kind = .leftBracket := congrArg Word.kind ho
  have bracket' : closing.kind = .rightBracket := congrArg Word.kind hc
  have hr : s.rest = opening :: (w ++ closing :: tail) := by simpa using hr
  obtain ⟨es, u, reads, across, hes⟩ := run_listed (p := Expr.boxed <$> g.expression)
    (P := BuildsBoxed) (fun t ht => reads_boxed (hl t ht)) (le_of_lt hb)
    (s := s.past [opening] (w ++ closing :: tail)) rfl hi bracket' rfl (by decide)
    fun t _ => exists_words_eq_cons t
  obtain ⟨items, rfl, hi⟩ := exists_boxed hes
  have dollar : (accept? .dollar).run c s = .ok none s :=
    run_accept?_none (by rw [hr]; simp [bracket])
  have read : g.base.run c s = .ok (.array (items.map Expr.boxed) opening.location)
      (u.past [closing] tail) := by
    simp only [base, operand, arrayLiteral, enclosed, accept, run_bind, dollar, andThen_ok,
      run_pure, Option.isSome_none, Bool.false_eq_true, if_false, run_accept?_cons hr bracket, reads,
      run_expect_past across.rest bracket']
  refine ⟨_, _, run_conditional_of_base (by omega) ?_ hp read,
    ((Across.past ..).trans across).trans (.past ..), .array opening.location hi⟩
  rw [hr, headD_cons, bracket]
  exact ⟨rfl, rfl⟩

lemma run_inScope_declaring {α : Type} (name token) {kind : ScopeKind} (hk : kind.isRoot = false)
    {p : Slot → Parse α} {s : ParseState} {tail} {P : α → Prop}
    (h : ∀ (slot : Slot) (t : ParseState), t.rest = s.rest →
      ∃ a u, (p slot).run c t = .ok a u ∧ t.Across u tail ∧ P a) :
    ∃ a u, (inScope kind (declareOwn name token >>= p) hk).run c s = .ok a u ∧ s.Across u tail ∧ P a := by
  obtain ⟨slot, t, declared, rest, errors, label⟩ : ∃ slot t,
      (declareOwn name token).run c { s with scopes := s.scopes.enter kind } = .ok slot t ∧
        t.rest = s.rest ∧ t.errors = s.errors ∧ t.scopes.nextLabel = s.scopes.nextLabel :=
    ⟨_, _, rfl, rfl, rfl, rfl⟩
  obtain ⟨a, u, read, across, ha⟩ := h slot t rest
  have body : (declareOwn name token >>= p).run c { s with scopes := s.scopes.enter kind } =
      .ok a u := by
    simp only [run_bind, declared, andThen_ok, read]
  have onward := (onward_of_ok body).scopes
  obtain ⟨n, hn⟩ := across.scopes
  refine ⟨a, unwind s.scopes.depth u, ?_, ⟨across.rest, across.errors.trans errors,
    u.scopes.nextSlot, ?_⟩, ha⟩
  · simp only [run_inScope, body]
  · simp only [unwind, ScopeTable.unwindTo_of_onward_enter hk onward]
    rw [hn]
    simp only [label]

lemma reads_record {l : List (String × Tree)} (hb : l.length < c.bound)
    (hl : ∀ f ∈ l, ReadsAs c g.expression f.2.words (·.Builds f.2)) :
    ReadsAs c g.conditional (Tree.record l).words (·.Builds (.record l)) := by
  intro s w tail hr hw hp
  rw [Tree.words, Tree.fieldWords_eq] at hw
  obtain ⟨opening, v, rfl, ho, hv⟩ := map_eq_cons_iff.1 hw
  obtain ⟨w, v, rfl, hi, hv⟩ := map_eq_append_iff.1 hv
  obtain ⟨closing, rfl, hc⟩ := map_eq_singleton_iff.1 hv
  have brace : opening.kind = .leftBrace := congrArg Word.kind ho
  have brace' : closing.kind = .rightBrace := congrArg Word.kind hc
  have hr : s.rest = opening :: (w ++ closing :: tail) := by simpa using hr
  have read (self : Slot) (t : ParseState) (ht : t.rest = w ++ closing :: tail) :
      ∃ a u, (do return (self, ← listed g.recordField .rightBrace)).run c t = .ok a u ∧
        t.Across u (closing :: tail) ∧
        Forall₂ (fun f g => f.1 = g.1 ∧ BuildsBoxed f.2 g.2) a.2 l := by
    obtain ⟨fields, u, reads, across, hf⟩ := run_listed (p := g.recordField)
      (P := fun f g => f.1 = g.1 ∧ BuildsBoxed f.2 g.2) (fun f hf => reads_field (hl f hf))
      (le_of_lt hb) ht hi brace' rfl (by decide) fun f _ => ⟨_, _, rfl, TokenKind.noConfusion⟩
    exact ⟨(self, fields), u, by simp only [run_bind, reads, andThen_ok, run_pure], across,
      hf⟩
  obtain ⟨⟨self, fields⟩, u, reads, across, hf⟩ :=
    run_inScope_declaring "this" opening (rfl : ScopeKind.record.isRoot = false)
      (s := s.past [opening] (w ++ closing :: tail)) read
  obtain ⟨keys, parts⟩ := Forall₂.keys_values id hf
  obtain ⟨values, boxed, hv⟩ := exists_boxed parts
  have other (kind : TokenKind) (hk : kind ≠ .leftBrace) : (accept? kind).run c s = .ok none s :=
    run_accept?_none (by rw [hr, headD_cons, brace]; exact hk.symm)
  have read : g.base.run c s = .ok (.record fields self opening.location)
      (u.past [closing] tail) := by
    simp only [base, operand, recordLiteral, accept, run_bind, other .dollar (by decide),
      other .leftBracket (by decide), andThen_ok, run_pure, Option.isSome_none,
      Bool.false_eq_true, if_false, run_accept?_cons hr brace]
    rw [reads]
    simp only [andThen_ok, run_expect_past across.rest brace']
  refine ⟨_, _, run_conditional_of_base (by omega) ?_ hp read,
    ((Across.past ..).trans across).trans (.past ..), .record self opening.location keys boxed hv⟩
  rw [hr, headD_cons, brace]
  exact ⟨rfl, rfl⟩

end Grammar

/-- **The words of data are read as an expression that builds it**, with rules for as much nesting as
there are words. -/
theorem Tree.Plain.read {c : ParseContext} {t : Tree} (ht : t.Plain) (hb : t.words.length < c.bound)
    {depth : Nat} (hd : t.words.length ≤ depth + 1) :
    ReadsAs c (unrolled depth).conditional t.words (·.Builds t) := by
  induction ht generalizing depth with
  | @constant k hk =>
    cases k with
    | null | text => exact reads_constant (by omega) rfl
    | bool b => cases b <;> exact reads_constant (by omega) rfl
    | number x =>
      obtain ⟨n, hn⟩ := hk
      rw [words, Constant.words, hn.value, Option.getD_some] at hb hd ⊢
      refine reads_integer (by omega) (fun negative => ?_) hn
      simp [integerWords, negative] at hd
      omega
  | @array l hl ih =>
    have parts : l.length ≤ (Word.listed (l.map words)).length := by
      rw [← length_map words]
      refine Word.length_parts_le (forall_mem_map.2 fun t _ empty => ?_)
      obtain ⟨x, r, hx, -⟩ := exists_words_eq_cons t
      exact absurd (hx.symm.trans empty) (cons_ne_nil x r)
    simp only [words, itemWords_eq, length_cons, length_append, length_nil] at hb hd
    obtain ⟨depth, rfl⟩ : ∃ d, depth = d + 1 := ⟨depth - 1, by omega⟩
    refine reads_array (by omega) fun t ht => ?_
    have part := Word.length_le_listed (mem_map_of_mem (f := words) ht)
    exact ih t ht (by omega) (by omega)
  | @record l hk hn hl ih =>
    have parts : l.length ≤ (Word.listed (words.fieldWords l)).length := by
      rw [fieldWords_eq, ← length_map fun f : String × Tree =>
        (⟨.identifier, f.1, none⟩ :: .mark .colon ':' :: f.2.words : List Word)]
      exact Word.length_parts_le (forall_mem_map.2 fun f _ => cons_ne_nil _ _)
    simp only [words, length_cons, length_append, length_nil] at hb hd
    obtain ⟨depth, rfl⟩ : ∃ d, depth = d + 1 := ⟨depth - 1, by omega⟩
    refine reads_record (by omega) fun f hf => ?_
    have part : (⟨.identifier, f.1, none⟩ :: .mark .colon ':' :: f.2.words : List Word).length ≤
        (Word.listed (words.fieldWords l)).length := by
      rw [fieldWords_eq]
      exact Word.length_le_listed (mem_map_of_mem hf)
    rw [length_cons, length_cons] at part
    exact ih f hf (by omega) (by omega)

/-! ### The declaration of a variable -/

namespace Grammar

open Parse ParseState

variable {c : ParseContext} {s : ParseState} {t : Tree}

lemma labelsAhead_eq_nil {ts} (h : ∀ x ∈ ts, x.kind ≠ .kwLabel) (depth : Nat) :
    labelsAhead depth ts = [] := by
  induction ts generalizing depth with
  | nil => rfl
  | cons x ts ih =>
    obtain ⟨head, tail⟩ := forall_mem_cons.1 h
    unfold labelsAhead
    split
    · exact ih tail _
    · split
      · rfl
      · exact ih tail _
    · contradiction
    · exact ih tail _

/-- The parse of a unit that declares a variable with a written value. -/
structure Declared (t : Tree) (s : ParseState) (l : List Stmt) (u : ParseState) : Prop where
  errors : u.errors = s.errors
  code : ∃ slot e place, l = [.declare slot (Expr.boxed e) place] ∧ e.Builds t ∧ slot.name = "x" ∧
    u.scopes.globals.slots = [slot]

lemma run_varDeclaration (ht : t.Plain) {name assign semicolon : Token} {w : List Token}
    (hn : name.word = ⟨.identifier, "x", none⟩) (ha : assign.kind = .assign)
    (hc : semicolon.kind = .semicolon) (hw : w.map Token.word = t.words)
    (hs : s.rest = name :: assign :: (w ++ [semicolon])) (hi : s.scopes.inner = [])
    (hg : s.scopes.globals.slots = []) (hb : w.length < c.bound) (depth : Nat)
    (hd : w.length ≤ depth + 1) :
    ∃ stmt u, (unrolled depth).varDeclaration.run c s = .ok stmt u ∧ u.rest = [] ∧
      Declared t s [stmt] u := by
  have identifier : name.kind = .identifier := congrArg Word.kind hn
  have current : s.scopes.current = s.scopes.globals := by rw [ScopeTable.current, hi]; rfl
  have new : s.scopes.current.slot? name.lexeme = none := by simp [current, Scope.slot?, hg]
  have length : t.words.length = w.length := by rw [← hw, length_map]
  -- The states behind the name, its declaration and the sign of assignment.
  let named := s.past [name] (assign :: (w ++ [semicolon]))
  obtain ⟨slot, declared, hdeclare, hname, rest, errors, globals⟩ : ∃ slot declared,
      (declare name).run c named = .ok slot declared ∧ slot.name = "x" ∧
        declared.rest = assign :: (w ++ [semicolon]) ∧ declared.errors = s.errors ∧
        declared.scopes.globals.slots = [slot] := by
    refine ⟨_, _, run_declareAs name false _ new, congrArg Word.lexeme hn, rfl, rfl, ?_⟩
    simp [named, past, current, ScopeTable.setCurrent, hi, Scope.addSlot, hg]
  let assigned := declared.past [assign] (w ++ [semicolon])
  have value : ReadsAs c (unrolled depth).conditional t.words (·.Builds t) :=
    ht.read (by omega) (by omega)
  obtain ⟨e, u, read, across, he⟩ := value assigned w [semicolon] rfl hw
    (by simp [hc, TokenKind.precedence])
  have initial : ((unrolled depth).initialValue name).run c declared = .ok e u := by
    simp only [initialValue, accept, run_bind, run_accept?_cons rest ha, andThen_ok,
      run_pure, Option.isSome_some, if_true]
    exact read
  refine ⟨.declare slot e.boxed name.location, u.past [semicolon] [], ?_, rfl,
    across.errors.trans errors, slot, e, name.location, rfl, he, hname, ?_⟩
  · simp only [varDeclaration, run_bind, run_expect_past hs identifier, andThen_ok]
    rw [hdeclare]
    simp only [andThen_ok, initial, run_expect_past across.rest hc, run_pure]
  · obtain ⟨n, hn⟩ := across.scopes
    rw [← globals]
    exact congrArg (fun scopes => scopes.globals.slots) hn

lemma run_parseUnit_declaration (ht : t.Plain) {ts : List Token}
    (hw : ts.map Token.word = declarationWords t.words) (hs : s.rest = ts)
    (hi : s.scopes.inner = []) (hg : s.scopes.globals.slots = []) (hb : c.bound = ts.length + 1) :
    ∃ l u, (parseUnit c.bound).run c s = .ok l u ∧ Declared t s l u := by
  have announced : announceLabels.run c s = .ok () s := by
    have unlabeled : ∀ x ∈ s.rest, x.kind ≠ .kwLabel := by
      intro x hx
      rw [hs] at hx
      exact kind_ne_label_declaration t _ (hw ▸ mem_map_of_mem hx)
    simp [announceLabels, labelsAhead_eq_nil unlabeled]
  obtain ⟨var, ts, rfl, hvar, hw⟩ := map_eq_cons_iff.1 hw
  obtain ⟨name, ts, rfl, hname, hw⟩ := map_eq_cons_iff.1 hw
  obtain ⟨assign, ts, rfl, hassign, hw⟩ := map_eq_cons_iff.1 hw
  obtain ⟨w, ts, rfl, hvalue, hend⟩ := map_eq_append_iff.1 hw
  obtain ⟨semicolon, rfl, hsemicolon⟩ := map_eq_singleton_iff.1 hend
  have keyword : var.kind = .kwVar := congrArg Word.kind hvar
  have sign : assign.kind = .assign := congrArg Word.kind hassign
  have ending : semicolon.kind = .semicolon := congrArg Word.kind hsemicolon
  have head : s.rest.headD c.eof = var := by rw [hs]; rfl
  obtain ⟨n, hn, enough⟩ : ∃ n, c.bound = n + 2 ∧ w.length ≤ n := by
    simp only [length_cons, length_append, length_nil] at hb
    exact ⟨w.length + 3, by omega, by omega⟩
  obtain ⟨stmt, u, read, rest, declared⟩ := run_varDeclaration (c := c) ht
    (s := s.past [var] (name :: assign :: (w ++ [semicolon]))) hname sign ending hvalue rfl
    hi hg (by omega) (n + 1) (by omega)
  have declaration : (unrolled (n + 2)).declaration.run c s = .ok (some stmt) u := by
    have rule : (unrolled (n + 2)).declaration = (unrolled (n + 1)).declarationRule := rfl
    simp only [rule, declarationRule, attempt, run_recovering, run_bind, run_peek, andThen_ok, head,
      keyword, run_advance_past hs, run_map, read]
  refine ⟨[stmt], u, ?_, declared.errors, declared.code⟩
  have more : s.rest.isEmpty = false := by rw [hs]; rfl
  simp only [parseUnit, run_bind, announced, andThen_ok, run_rounds, hn, unit, run_atEnd,
    more, Bool.false_eq_true, if_false, declaration, rest, isEmpty_nil, if_true, run_pure]
  rfl

end Grammar

/-- **The declaration of a variable with written data compiles**, to code that builds the data. -/
theorem Tree.Plain.compile {t : Tree} (ht : t.Plain) (options natives linked supply) :
    ∃ u slot e place place', (compile (declarationOf t.text) options natives linked supply).result =
      .ok u ∧ u.ok ∧ u.exported = [slot] ∧ slot.name = "x" ∧
      u.program.body = .mk [.declare slot (Expr.boxed e) place] [slot] place' ∧ e.Builds t := by
  obtain ⟨clean, words⟩ := ht.spells_declaration.scan options.file
  obtain ⟨body, ends, htokens, hbody, hend⟩ := map_eq_append_iff.1 words
  obtain ⟨eof, rfl, -⟩ := map_eq_singleton_iff.1 hend
  obtain ⟨l, s, read, errors, slot, e, place, rfl, he, name, globals⟩ :=
    run_parseUnit_declaration (c := .ofUnit body eof options natives)
      (s := .start body eof linked supply) ht hbody rfl rfl rfl rfl
  have parsed := parse_eq body eof options natives linked supply
  rw [show (parseUnit (body.length + 1)).run (.ofUnit body eof options natives)
    (.start body eof linked supply) = _ from read, ← htokens] at parsed
  -- The unit, as `compile` makes it of what has been parsed.
  let u : CompiledUnit :=
    { program := ⟨.mk [.declare slot e.boxed place] s.scopes.globals.slots (body.headD eof).location,
        options.file⟩
      exported := s.scopes.globals.slots
      errors := s.errors
      scanErrors := (scan (declarationOf t.text) options.file).errors }
  refine ⟨u, slot, e, place, (body.headD eof).location, ?_, ?_, globals, name, ?_, he⟩
  · simp only [DynScript.compile, parsed]
    rfl
  · simp only [u, CompiledUnit.ok, errors, clean]
    rfl
  · simp only [u, globals]

end DynScript

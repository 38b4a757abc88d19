import DynScript.Proofs.ParseRuns

/-!
# The grammar of operators

The expressions that are written with numbers, parentheses and operators alone, by the rules

    expression  → assignment ( "?" expression ":" expression )?
    assignment  → logicXor
    logicXor    → logicOr ( "^^" logicOr )*
    logicOr     → logicAnd ( "||" logicAnd )*
    logicAnd    → equality ( "&&" equality )*
    equality    → comparison ( ( "==" | "!=" ) comparison )*
    comparison  → bitLogic ( ( ">" | ">=" | "<" | "<=" ) bitLogic )*
    bitLogic    → bitShift ( ( "&" | "|" | "^" ) bitShift )*
    bitShift    → term ( ( "<<" | ">>" ) term )*
    term        → factor ( ( "+" | "-" ) factor )*
    factor      → unary ( ( "*" | "/" | "%" ) unary )*
    unary       → ( "!" | "-" | "~" ) unary | callable
    callable    → tuple ( "(" expression? ")" )*
    tuple       → NUMBER | "(" expression ")"
-/

namespace DynScript

open List ParseResult TokenKind

/-- The left sides of the rules. -/
inductive Nonterminal where
  | expression | assignment
  | logicXor | logicOr | logicAnd | equality | comparison | bitLogic | bitShift | term | factor
  | unary | callable | tuple
  deriving DecidableEq, Repr

namespace Nonterminal

/-- The nonterminal that the rule of another one repeats. -/
def item : Nonterminal → Option Nonterminal
  | logicXor => some logicOr
  | logicOr => some logicAnd
  | logicAnd => some equality
  | equality => some comparison
  | comparison => some bitLogic
  | bitLogic => some bitShift
  | bitShift => some term
  | term => some factor
  | factor => some unary
  | callable => some tuple
  | _ => none

open Grammar (Connective)

/-- What stands between the items of a nonterminal, by the kinds of tokens. -/
def connective? : Nonterminal → TokenKind → Option Connective
  | logicXor, .xor => some (.logical .xor)
  | logicOr, .or => some (.logical .or)
  | logicAnd, .and => some (.logical .and)
  | equality, .equal => some (.binary .equal)
  | equality, .notEqual => some (.binary .notEqual)
  | comparison, .greater => some (.binary .greater)
  | comparison, .greaterEqual => some (.binary .greaterEqual)
  | comparison, .less => some (.binary .less)
  | comparison, .lessEqual => some (.binary .lessEqual)
  | bitLogic, .bitAnd => some (.binary .bitAnd)
  | bitLogic, .bitOr => some (.binary .bitOr)
  | bitLogic, .bitXor => some (.binary .bitXor)
  | bitShift, .leftShift => some (.binary .shiftLeft)
  | bitShift, .rightShift => some (.binary .shiftRight)
  | term, .plus => some (.binary .add)
  | term, .minus => some (.binary .sub)
  | factor, .star => some (.binary .mul)
  | factor, .slash => some (.binary .div)
  | factor, .percent => some (.binary .mod)
  | _, _ => none

end Nonterminal

/-- The token of an operator before its operand. -/
inductive Signs : TokenKind → UnaryOp → Prop where
  | not : Signs .bang .not
  | negate : Signs .minus .negate
  | bitNot : Signs .bitNot .bitNot

/-- The tokens that a nonterminal derives, with the expression that is read off the derivation. -/
inductive Derives : Nonterminal → List Token → Expr → Prop where
  | condition {u v w} {question colon : Token} {test first second : Expr}
    (hq : question.kind = .question) (hc : colon.kind = .colon)
    (ht : Derives .assignment u test) (hf : Derives .expression v first)
    (hs : Derives .expression w second) :
    Derives .expression (u ++ question :: v ++ colon :: w)
      (.ternary test first.boxed second.boxed question.location)
  | expression {w} {e} (h : Derives .assignment w e) : Derives .expression w e
  | assignment {w} {e} (h : Derives .logicXor w e) : Derives .assignment w e
  | item {n m : Nonterminal} {w} {e} (hm : n.item = some m)
    (h : Derives m w e) : Derives n w e
  | joined {n m : Nonterminal} {u v} {operator : Token} {left right}
    {op : Grammar.Connective} (hm : n.item = some m) (ho : n.connective? operator.kind = some op)
    (hl : Derives n u left) (hr : Derives m v right) :
    Derives n (u ++ operator :: v) (op.join left right operator.location)
  | signed {w} {operator : Token} {op} {e}
    (ho : Signs operator.kind op) (h : Derives .unary w e) :
    Derives .unary (operator :: w) (.unary op e operator.location)
  | unary {w} {e} (h : Derives .callable w e) : Derives .unary w e
  | called {u} {opening closing : Token} {function}
    (ho : opening.kind = .leftParen) (hc : closing.kind = .rightParen)
    (hf : Derives .callable u function) :
    Derives .callable (u ++ [opening, closing]) (.call function [] opening.location)
  | calledWith {u v} {opening closing : Token} {function argument : Expr}
    (ho : opening.kind = .leftParen) (hc : closing.kind = .rightParen)
    (hf : Derives .callable u function) (ha : Derives .expression v argument) :
    Derives .callable (u ++ opening :: v ++ [closing])
      (.call function [argument.boxed] opening.location)
  | number {t : Token} (h : t.kind = .number) :
    Derives .tuple [t] (.literal (t.literal.getD .null) t.location)
  | grouped {w} {opening closing : Token} {e}
    (ho : opening.kind = .leftParen) (hc : closing.kind = .rightParen)
    (h : Derives .expression w e) : Derives .tuple (opening :: w ++ [closing]) e

/-- The kinds of tokens that stand in front of everything that is derived. -/
def TokenKind.leads (n : Nonterminal) (k : TokenKind) : Bool :=
  match k with
  | .number | .leftParen => true
  | .bang | .minus | .bitNot => n ≠ .callable ∧ n ≠ .tuple
  | _ => false

variable {k : TokenKind}

lemma TokenKind.leads_of_item {n m : Nonterminal} (hm : n.item = some m)
    (h : k.leads m) : k.leads n := by
  cases n <;> cases hm <;> exact h

lemma TokenKind.leads_unary (h : k.leads .callable) : k.leads .unary := by
  unfold leads at h ⊢
  split at h <;> simp_all

variable {op : UnaryOp}

lemma Signs.leads (h : Signs k op) : k.leads .unary := by
  cases h <;> rfl

lemma Signs.unaryOf? (h : Signs k op) : Grammar.unaryOf? k = some op := by
  cases h <;> rfl

lemma Derives.exists_cons {n w e} (h : Derives n w e) :
    ∃ t tail, w = t :: tail ∧ t.kind.leads n := by
  induction h with
  | condition _ _ _ _ _ iht _ _ =>
    obtain ⟨t, tail, rfl, ht⟩ := iht
    exact ⟨t, _, rfl, ht⟩
  | expression _ ih => exact ih
  | assignment _ ih => exact ih
  | item hm _ ih =>
    obtain ⟨t, tail, rfl, ht⟩ := ih
    exact ⟨t, tail, rfl, leads_of_item hm ht⟩
  | joined _ _ _ _ ihl _ =>
    obtain ⟨t, tail, rfl, ht⟩ := ihl
    exact ⟨t, _, rfl, ht⟩
  | signed ho _ _ => exact ⟨_, _, rfl, ho.leads⟩
  | unary _ ih =>
    obtain ⟨t, tail, rfl, ht⟩ := ih
    exact ⟨t, tail, rfl, leads_unary ht⟩
  | called _ _ _ ihf =>
    obtain ⟨t, tail, rfl, ht⟩ := ihf
    exact ⟨t, _, rfl, ht⟩
  | calledWith _ _ _ _ ihf _ =>
    obtain ⟨t, tail, rfl, ht⟩ := ihf
    exact ⟨t, _, rfl, ht⟩
  | number h => exact ⟨_, _, rfl, by simp [h, leads]⟩
  | grouped ho _ _ _ => exact ⟨_, _, rfl, by simp [ho, leads]⟩

/-- The kinds of tokens that the grammar is about. -/
def TokenKind.inOperators : TokenKind → Bool
  | .number | .leftParen | .rightParen | .question | .colon => true
  | .bang | .minus | .bitNot => true
  | .xor | .or | .and | .equal | .notEqual | .greater | .greaterEqual | .less | .lessEqual => true
  | .bitAnd | .bitOr | .bitXor | .leftShift | .rightShift | .plus | .star | .slash | .percent => true
  | _ => false

/-! ### The rules of the parser -/

namespace Nonterminal

open Grammar Parse

variable (g : Grammar)

/-- The parser for a nonterminal. -/
def rule : Nonterminal → Parse Expr
  | expression => g.conditional
  | assignment => g.assigned
  | logicXor => g.leveled levels
  | logicOr => g.leveled (levels.drop 1)
  | logicAnd => g.leveled (levels.drop 2)
  | equality => g.leveled (levels.drop 3)
  | comparison => g.leveled (levels.drop 4)
  | bitLogic => g.leveled (levels.drop 5)
  | bitShift => g.leveled (levels.drop 6)
  | term => g.leveled (levels.drop 7)
  | factor => g.leveled (levels.drop 8)
  | unary => g.prefixed
  | callable => g.suffixed
  | tuple => g.base

/-- How loose a nonterminal is: the greater, the tighter. -/
def rank : Nonterminal → Nat
  | expression => 1
  | assignment => 2
  | logicXor => 3
  | logicOr => 4
  | logicAnd => 5
  | equality => 6
  | comparison => 7
  | bitLogic => 8
  | bitShift => 9
  | term => 10
  | factor => 11
  | unary => 12
  | callable => 13
  | tuple => 14

/-- The operators between the items of a level, as the parser looks them up. -/
def level (n : Nonterminal) : Level :=
  levels.getD (n.rank - rank .logicXor) []

/-- How the parser goes on behind an item of a nonterminal. -/
def loop : Nonterminal → Nat → Expr → Parse Expr
  | callable => g.suffixes
  | n => chain n.level ((n.item.getD n).rule g)

variable {g} {n m : Nonterminal}

section

variable (h : n.item = some m)
include h

lemma rank_item : m.rank = n.rank + 1 := by
  cases n <;> cases h <;> rfl

lemma rule_eq_loop :
    n.rule g = (m.rule g >>= fun first => rounds >>= fun k => n.loop g k first) := by
  cases n <;> cases h <;> rfl

lemma loop_of_ne (hn : n ≠ .callable) :
    n.loop g = chain n.level (m.rule g) := by
  cases n <;> cases h <;> first | rfl | exact absurd rfl hn

lemma lookup_level (hn : n ≠ .callable) (k) : n.level.lookup k = n.connective? k := by
  cases n <;> cases h <;> first | exact absurd rfl hn | (cases k <;> rfl)

end

end Nonterminal

/-- The rank of the nonterminals that a token can continue, if it stands behind one. -/
def TokenKind.precedence : TokenKind → Nat
  | .question => 1
  | .assign | .plusAssign | .minusAssign | .starAssign | .slashAssign | .percentAssign => 2
  | .xor => 3
  | .or => 4
  | .and => 5
  | .equal | .notEqual => 6
  | .greater | .greaterEqual | .less | .lessEqual => 7
  | .bitAnd | .bitOr | .bitXor => 8
  | .leftShift | .rightShift => 9
  | .plus | .minus => 10
  | .star | .slash | .percent => 11
  | .leftParen | .leftBracket | .dot => 13
  | _ => 0

lemma Nonterminal.precedence_of_connective? {n : Nonterminal} {op} (h : n.connective? k = some op) :
    k.precedence = n.rank := by
  unfold connective? at h
  split at h <;> first | rfl | cases h

/-! ### Reading what is derived -/

/-- The state after the tokens `w` have been read in front of `tail`. -/
def ParseState.past (s : ParseState) (w tail : List Token) : ParseState :=
  { s with last := w.foldl (fun _ t => t) s.last, rest := tail }

namespace ParseState

variable (s : ParseState) (u v tail tail' : List Token)

@[simp] lemma rest_past : (s.past u tail).rest = tail := rfl

@[simp] lemma past_past : (s.past u tail).past v tail' = s.past (u ++ v) tail' := by
  simp [past]

end ParseState

namespace Grammar

open Parse

variable {c : ParseContext} {g : Grammar} {n m : Nonterminal} {s : ParseState} {e : Expr}

variable {kind : TokenKind} {k : Nat} {operator opening closing : Token} {tail : List Token}

lemma run_accept?_cons {t} (hr : s.rest = t :: tail) (hk : t.kind = kind) :
    (accept? kind).run c s = .ok (some t) (s.past [t] tail) := by
  rw [run_accept?, hr]
  exact if_pos hk

lemma run_accept?_none (h : (s.rest.headD c.eof).kind ≠ kind) :
    (accept? kind).run c s = .ok none s := by
  rw [run_accept?]
  split
  · rfl
  · rename_i t tail hr
    rw [hr] at h
    exact if_neg h

lemma run_advance_past {t} (hr : s.rest = t :: tail) :
    advance.run c s = .ok t (s.past [t] tail) :=
  run_advance_cons hr

lemma run_expect_past {message} {t} (hr : s.rest = t :: tail) (hk : t.kind = kind) :
    (expect kind message).run c s = .ok t (s.past [t] tail) :=
  run_expect_cons hr hk

/-! ### Repetitions -/

lemma run_loop_stop (hm : n.item = some m) (h : (s.rest.headD c.eof).kind.precedence < n.rank) :
    (n.loop g (k + 1) e).run c s = .ok e s := by
  by_cases hn : n = .callable
  · subst hn
    have no {kind : TokenKind} (hk : kind.precedence = 13) :
        (accept? kind).run c s = .ok none s := by
      refine run_accept?_none fun same => ?_
      rw [same, hk] at h
      exact Nat.lt_irrefl _ h
    simp only [Nonterminal.loop, Grammar.suffixes, run_bind, andThen_ok, run_pure,
      no (rfl : leftParen.precedence = 13),
      no (rfl : leftBracket.precedence = 13), no (rfl : dot.precedence = 13)]
  · have none : n.level.lookup (s.rest.headD c.eof).kind = none := by
      rw [Nonterminal.lookup_level hm hn]
      cases ho : n.connective? (s.rest.headD c.eof).kind with
      | none => rfl
      | some op =>
        rw [Nonterminal.precedence_of_connective? ho] at h
        exact absurd h (Nat.lt_irrefl _)
    rw [Nonterminal.loop_of_ne hm hn]
    simp only [chain, run_bind, run_peek, andThen_ok, none, run_pure]

lemma run_loop_join (hm : n.item = some m) {op} (ho : n.connective? operator.kind = some op)
    (hr : s.rest = operator :: tail) : (n.loop g (k + 1) e).run c s =
      ((m.rule g).run c (s.past [operator] tail)).andThen fun right t =>
        (n.loop g k (op.join e right operator.location)).run c t := by
  have hn : n ≠ .callable := by
    rintro rfl
    cases ho
  have found : n.level.lookup (s.rest.headD c.eof).kind = some op := by
    rw [Nonterminal.lookup_level hm hn, hr]
    exact ho
  rw [Nonterminal.loop_of_ne hm hn]
  simp only [chain, run_bind, run_peek, andThen_ok, found, run_advance_past hr]

lemma run_loop_call (ho : opening.kind = .leftParen) (hr : s.rest = opening :: tail) :
    (Nonterminal.callable.loop g (k + 1) e).run c s =
      (g.arguments.run c (s.past [opening] tail)).andThen fun arguments t =>
        (Nonterminal.callable.loop g k (.call e arguments opening.location)).run c t := by
  simp only [Nonterminal.loop, Grammar.suffixes, run_bind, andThen_ok,
    run_accept?_cons hr ho]

/-- The parser `p` reads the tokens `w` as the expression `e` in front of a token that cannot
continue anything of the given rank. -/
def Parses (c : ParseContext) (p : Parse Expr) (rank : Nat) (w : List Token) (e : Expr) : Prop :=
  ∀ (s : ParseState) (tail : List Token), s.rest = w ++ tail →
    (tail.headD c.eof).kind.precedence < rank → p.run c s = .ok e (s.past w tail)

/-- Behind its first item, the repetition of a nonterminal comes to `e` at the end of the tokens
`w`. -/
def Repeats (c : ParseContext) (g : Grammar) (n m : Nonterminal) (w : List Token) (e : Expr) :
    Prop :=
  ∃ j < w.length, ∀ (k : Nat) (s : ParseState) (tail : List Token), s.rest = w ++ tail →
    (tail.headD c.eof).kind.precedence < m.rank →
    (((m.rule g).run c s).andThen fun first t => (n.loop g (k + j) first).run c t) =
      (n.loop g k e).run c (s.past w tail)

variable {w u v : List Token} {left right : Expr}

lemma Repeats.one (hw : w ≠ []) (h : Parses c (m.rule g) m.rank w e) : Repeats c g n m w e := by
  refine ⟨0, length_pos_iff.2 hw, fun k s tail hr hp => ?_⟩
  rw [h s tail hr hp]
  rfl

lemma Repeats.join (hm : n.item = some m) {op} (ho : n.connective? operator.kind = some op)
    (hl : Repeats c g n m u left) (hv : Parses c (m.rule g) m.rank v right) :
    Repeats c g n m (u ++ operator :: v) (op.join left right operator.location) := by
  obtain ⟨j, hj, hl⟩ := hl
  refine ⟨j + 1, by simp; omega, fun k s tail hr hp => ?_⟩
  rw [append_assoc] at hr
  have looser : operator.kind.precedence < m.rank := by
    rw [Nonterminal.precedence_of_connective? ho, Nonterminal.rank_item hm]
    exact Nat.lt_succ_self _
  rw [Nat.add_comm j 1, ← Nat.add_assoc, hl (k + 1) s _ hr looser, run_loop_join hm ho rfl,
    hv _ tail rfl hp]
  simp only [andThen_ok, ParseState.past_past, append_assoc,
    singleton_append]

lemma Repeats.call (ho : opening.kind = .leftParen) {arguments}
    (hl : Repeats c g .callable .tuple u left)
    (ha : ∀ (s : ParseState) (tail : List Token), s.rest = v ++ tail →
      g.arguments.run c s = .ok arguments (s.past v tail)) :
    Repeats c g .callable .tuple (u ++ opening :: v) (.call left arguments opening.location) := by
  obtain ⟨j, hj, hl⟩ := hl
  refine ⟨j + 1, by simp; omega, fun k s tail hr _ => ?_⟩
  rw [append_assoc] at hr
  have looser : opening.kind.precedence < Nonterminal.tuple.rank := by
    rw [ho]
    decide
  rw [Nat.add_comm j 1, ← Nat.add_assoc, hl (k + 1) s _ hr looser, run_loop_call ho rfl,
    ha _ tail rfl]
  simp only [andThen_ok, ParseState.past_past, append_assoc,
    singleton_append]

lemma Repeats.reads (hm : n.item = some m) (h : Repeats c g n m w e)
    (hb : w.length < c.bound) : Parses c (n.rule g) n.rank w e := by
  obtain ⟨j, hj, h⟩ := h
  intro s tail hr hp
  obtain ⟨k, hk⟩ : ∃ k, c.bound = k + 1 + j := ⟨c.bound - 1 - j, by omega⟩
  have looser : (tail.headD c.eof).kind.precedence < m.rank := by
    rw [Nonterminal.rank_item hm]
    exact Nat.lt_succ_of_lt hp
  rw [Nonterminal.rule_eq_loop hm]
  simp only [run_bind, run_rounds, andThen_ok, hk]
  rw [h (k + 1) s tail hr looser]
  exact run_loop_stop hm hp

/-! ### The other rules -/

lemma run_arguments_nil (hc : closing.kind = .rightParen) (hr : s.rest = closing :: tail) :
    g.arguments.run c s = .ok [] (s.past [closing] tail) := by
  have closed : (s.rest.head?.any fun t => t.kind = .rightParen) = true := by simp [hr, hc]
  simp only [arguments, enclosed, listed, run_bind, run_check, andThen_ok, closed,
    if_true, run_pure, run_expect_past hr hc]

lemma run_arguments_one (hc : closing.kind = .rightParen) (hv : Parses c g.expression 1 v e)
    (hh : ∀ t ∈ v.head?, t.kind ≠ .rightParen) (hne : v ≠ [])
    (hb : c.bound ≠ 0) (hr : s.rest = v ++ closing :: tail) :
    g.arguments.run c s = .ok [e.boxed] (s.past (v ++ [closing]) tail) := by
  obtain ⟨t, v', rfl⟩ := exists_cons_of_ne_nil hne
  have some : (s.rest.head?.any fun t => t.kind = .rightParen) = false := by
    simpa [hr] using hh t rfl
  obtain ⟨k, hk⟩ := Nat.exists_eq_succ_of_ne_zero hb
  have value := hv s (closing :: tail) hr (by simp [hc, precedence])
  have last : ((s.past (t :: v') (closing :: tail)).rest.headD c.eof).kind ≠ .comma := by
    simp [hc]
  simp only [arguments, enclosed, listed, run_bind, run_check, andThen_ok, some,
    if_false, run_rounds, hk, commaSeparated, run_map, value, accept, run_accept?_none last,
    Option.isSome_none, run_pure, Bool.false_eq_true]
  rw [run_expect_past rfl hc]
  simp

lemma run_base_eq (h : (s.rest.headD c.eof).kind.leads .tuple) :
    g.base.run c s = g.primary.run c s := by
  have no {kind : TokenKind} (hk : kind.leads .tuple = false) :
      (accept? kind).run c s = .ok none s := by
    refine run_accept?_none fun same => ?_
    rw [same, hk] at h
    cases h
  simp only [base, operand, accept, run_bind, andThen_ok, run_pure,
    no (rfl : dollar.leads .tuple = false),
    no (rfl : leftBracket.leads .tuple = false),
    no (rfl : leftBrace.leads .tuple = false),
    no (rfl : kwFun.leads .tuple = false), Option.isSome_none, Bool.false_eq_true,
    if_false]

lemma reads_number {t : Token} (h : t.kind = .number) (rank : Nat) :
    Parses c g.base rank [t] (.literal (t.literal.getD .null) t.location) := by
  intro s tail hr _
  have head : s.rest.headD c.eof = t := by rw [hr]; rfl
  rw [run_base_eq (by rw [head, h]; rfl)]
  simp only [primary, run_bind, andThen_ok, run_peek, head, h, run_advance_past hr,
    run_pure]
  rfl

lemma reads_grouped (ho : opening.kind = .leftParen)
    (hc : closing.kind = .rightParen) (hw : Parses c g.expression 1 w e) (rank : Nat) :
    Parses c g.base rank (opening :: w ++ [closing]) e := by
  intro s tail hr _
  have hr : s.rest = opening :: (w ++ closing :: tail) := by simpa using hr
  have head : s.rest.headD c.eof = opening := by rw [hr]; rfl
  have value := hw (s.past [opening] (w ++ closing :: tail)) (closing :: tail) rfl
    (by simp [hc, precedence])
  rw [run_base_eq (by rw [head, ho]; rfl)]
  simp only [primary, run_bind, andThen_ok, run_peek, head, ho, run_advance_past hr,
    value]
  rw [run_expect_past rfl hc]
  simp

lemma reads_signed (ho : Signs operator.kind op) {rank : Nat} (h : Parses c g.unary rank w e) :
    Parses c g.prefixed rank (operator :: w) (.unary op e operator.location) := by
  intro s tail hr hp
  rw [cons_append] at hr
  have head : s.rest.headD c.eof = operator := by rw [hr]; rfl
  have sign := ho.unaryOf?
  have value := h (s.past [operator] (w ++ tail)) tail rfl hp
  simp only [prefixed, run_bind, andThen_ok, run_peek, head, sign, run_advance_past hr]
  rw [value]
  simp

lemma reads_prefixed {rank : Nat} {t : Token} (ht : t.kind.leads .callable)
    (h : Parses c g.suffixed (rank + 1) (t :: w) e) : Parses c g.prefixed rank (t :: w) e := by
  intro s tail hr hp
  have head : s.rest.headD c.eof = t := by rw [hr]; rfl
  have unsigned : unaryOf? t.kind = none ∧ stepOf? t.kind = none := by
    revert ht
    cases t.kind <;> simp [leads, unaryOf?, stepOf?]
  simp only [prefixed, run_bind, andThen_ok, run_peek, head, unsigned.1, unsigned.2]
  exact h s tail hr (Nat.lt_succ_of_lt hp)

lemma reads_assigned (h : Parses c (g.leveled levels) 3 w e) : Parses c g.assigned 2 w e := by
  intro s tail hr hp
  have none : updateOf? ((s.past w tail).rest.headD c.eof).kind = none := by
    revert hp
    rw [ParseState.rest_past]
    cases (tail.headD c.eof).kind <;> simp [precedence, updateOf?]
  simp only [assigned, run_bind, andThen_ok, run_peek, h s tail hr (Nat.lt_succ_of_lt hp),
    none, run_pure]

lemma reads_conditional (h : Parses c g.assigned 2 w e) : Parses c g.conditional 1 w e := by
  intro s tail hr hp
  have none : ((s.past w tail).rest.headD c.eof).kind ≠ .question := by
    intro same
    rw [ParseState.rest_past] at same
    rw [same] at hp
    exact Nat.lt_irrefl _ hp
  simp only [conditional, run_bind, andThen_ok, h s tail hr (Nat.lt_succ_of_lt hp),
    run_accept?_none none, run_pure]

lemma reads_condition {question colon : Token} {test first second} (hq : question.kind = .question)
    (hc : colon.kind = .colon) (ht : Parses c g.assigned 2 u test)
    (hf : Parses c g.expression 1 v first) (hs : Parses c g.expression 1 w second) :
    Parses c g.conditional 1 (u ++ question :: v ++ colon :: w)
      (.ternary test first.boxed second.boxed question.location) := by
  intro s tail hr hp
  have hr : s.rest = u ++ question :: (v ++ colon :: (w ++ tail)) := by simpa using hr
  have test := ht s _ hr (by simp [hq, precedence])
  simp only [conditional, run_bind, test, andThen_ok]
  rw [run_accept?_cons rfl hq]
  simp only [run_bind, andThen_ok]
  rw [hf _ _ rfl (by simp [hc, precedence]), andThen_ok,
    run_expect_past rfl hc, andThen_ok, hs _ _ rfl hp]
  simp

end Grammar

namespace Derives

open Grammar

variable {c : ParseContext} {n m : Nonterminal} {w : List Token} {e : Expr}

lemma ne_nil (h : Derives n w e) : w ≠ [] := by
  obtain ⟨t, tail, rfl, -⟩ := h.exists_cons
  exact cons_ne_nil t tail

lemma head_ne_rightParen (h : Derives n w e) : ∀ t ∈ w.head?, t.kind ≠ .rightParen := by
  obtain ⟨t, tail, rfl, leads⟩ := h.exists_cons
  rintro _ ⟨⟩ closing
  rw [closing] at leads
  cases leads

lemma reads_of_repeats (hm : n.item = some m) {g} (h : Repeats c g n m w e)
    (hb : w.length < c.bound) :
    Parses c (n.rule g) n.rank w e ∧ ∀ m, n.item = some m → Repeats c g n m w e := by
  refine ⟨h.reads hm hb, fun m' hm' => ?_⟩
  cases hm.symm.trans hm'
  exact h

/-- **What is derived is read**, up to a token that cannot continue it, by the rules for as much
nesting as there are tokens. -/
theorem reads (h : Derives n w e) (hb : w.length < c.bound) (depth : Nat)
    (hd : w.length ≤ depth + 1) :
    Parses c (n.rule (.unrolled depth)) n.rank w e ∧
      ∀ m, n.item = some m → Repeats c (.unrolled depth) n m w e := by
  induction h generalizing depth with
  | condition hq hc ht hf hs iht ihf ihs =>
    simp only [length_append, length_cons] at hb hd
    obtain ⟨depth, rfl⟩ : ∃ d, depth = d + 1 := ⟨depth - 1, by omega⟩
    refine ⟨reads_condition hq hc (iht (by omega) _ (by omega)).1 ?_ ?_, nofun⟩
    · exact (ihf (by omega) depth (by omega)).1
    · exact (ihs (by omega) depth (by omega)).1
  | expression _ ih => exact ⟨reads_conditional (ih hb _ hd).1, nofun⟩
  | assignment _ ih => exact ⟨reads_assigned (ih hb _ hd).1, nofun⟩
  | item hm h ih => exact reads_of_repeats hm (.one h.ne_nil (ih hb _ hd).1) hb
  | joined hm ho _ _ ihl ihr =>
    refine reads_of_repeats hm ?_ hb
    simp only [length_append, length_cons] at hb hd
    exact .join hm ho ((ihl (by omega) _ (by omega)).2 _ hm) (ihr (by omega) _ (by omega)).1
  | signed ho h ih =>
    have := length_pos_iff.2 h.ne_nil
    simp only [length_cons] at hb hd
    obtain ⟨depth, rfl⟩ : ∃ d, depth = d + 1 := ⟨depth - 1, by omega⟩
    exact ⟨reads_signed ho (ih (by omega) depth (by omega)).1, nofun⟩
  | unary h ih =>
    obtain ⟨t, tail, rfl, leads⟩ := h.exists_cons
    exact ⟨reads_prefixed leads (ih hb _ hd).1, nofun⟩
  | called ho hc _ ih =>
    refine reads_of_repeats rfl ?_ hb
    simp only [length_append, length_cons] at hb hd
    exact .call ho ((ih (by omega) _ (by omega)).2 _ rfl) fun s tail hr => run_arguments_nil hc hr
  | calledWith ho hc hf ha ihf iha =>
    refine reads_of_repeats rfl ?_ hb
    simp only [length_append, length_cons] at hb hd
    obtain ⟨depth, rfl⟩ : ∃ d, depth = d + 1 := ⟨depth - 1, by omega⟩
    rw [append_assoc, cons_append]
    refine .call ho ((ihf (by omega) _ (by omega)).2 _ rfl) fun s tail hr => ?_
    have argument := (iha (by omega) depth (by omega)).1
    exact run_arguments_one hc argument ha.head_ne_rightParen ha.ne_nil (by omega) (by simpa using hr)
  | number h => exact ⟨reads_number h _, nofun⟩
  | grouped ho hc h ih =>
    simp only [length_append, length_cons] at hb hd
    obtain ⟨depth, rfl⟩ : ∃ d, depth = d + 1 := ⟨depth - 1, by omega⟩
    exact ⟨reads_grouped ho hc (ih (by omega) depth (by omega)).1 _, nofun⟩

end Derives

/-! ### Reading only what is derived -/

/-- `P` holds of the tokens between two states, if the grammar is about them all. -/
def Found (s : ParseState) (P : List Token → Prop) (t : ParseState) : Prop :=
  ∃ w, s.rest = w ++ t.rest ∧ ((∀ x ∈ w, x.kind.inOperators) → P w)

namespace Found

variable {s t u : ParseState} {P Q : List Token → Prop} {x : Token}

lemma nil (h : P []) : Found s P s :=
  ⟨[], rfl, fun _ => h⟩

lemma token (hx : Takes s x t) : Found s (· = [x]) t :=
  ⟨[x], hx.rest, fun _ => rfl⟩

lemma mono (h : Found s P t) (hP : ∀ w, P w → Q w) : Found s Q t := by
  obtain ⟨w, hw, h⟩ := h
  exact ⟨w, hw, fun hi => hP w (h hi)⟩

lemma andThen (h : Found s P t) (h' : Found t Q u) :
    Found s (fun w => ∃ v v', w = v ++ v' ∧ P v ∧ Q v') u := by
  obtain ⟨v, hv, h⟩ := h
  obtain ⟨v', hv', h'⟩ := h'
  refine ⟨v ++ v', by rw [hv, hv', append_assoc], fun hi => ⟨v, v', rfl, h ?_, h' ?_⟩⟩
  · exact fun x hx => hi x (mem_append_left _ hx)
  · exact fun x hx => hi x (mem_append_right _ hx)

lemma outside (h : Found s P t) (hx : Takes t x u) (hk : x.kind.inOperators = false) {α : Type}
    {R : α → List Token → Prop} {p : Parse α} {c} : p.Gives c u fun a v => Found s (R a) v := by
  intro a v ha
  obtain ⟨w, hw, -⟩ := h
  obtain ⟨w', hw'⟩ := (Parse.onward_of_ok ha).rest
  refine ⟨w ++ x :: w', by simp [hw, hx.rest, hw'], fun hi => ?_⟩
  have inside := hi x (by simp)
  rw [hk] at inside
  cases inside

end Found

namespace Grammar

open Parse

/-- A parser reads only what a nonterminal derives, from tokens that the grammar is about. -/
def Finds (c : ParseContext) (p : Parse Expr) (n : Nonterminal) : Prop :=
  ∀ s, p.Gives c s fun e t => Found s (Derives n · e) t

variable {c : ParseContext} {g : Grammar} {n m : Nonterminal} {s s₀ : ParseState} {e : Expr}

/-- The tokens of a list of at most one argument. -/
def IsArgument (arguments : List Expr) (w : List Token) : Prop :=
  w = [] ∧ arguments = [] ∨ ∃ a, Derives .expression w a ∧ arguments = [a.boxed]

lemma finds_arguments (hg : Finds c g.expression .expression) (s) :
    g.arguments.Gives c s fun l t =>
      Found s (fun w => ∃ v, ∃ closing : Token, closing.kind = .rightParen ∧ w = v ++ [closing] ∧
        IsArgument l v) t := by
  refine .bind (P := fun l t => Found s (IsArgument l) t) ?_ fun l t hl =>
    .expect fun x u hx ht => .pure ?_
  · refine gives_listed (R := fun s l t => Found s (IsArgument l) t) (.nil (.inl ⟨rfl, rfl⟩))
      (I := fun s b t => Found s (fun w => ∃ a, Derives .expression w a ∧ b = a.boxed) t)
      (fun s => .map ((hg s).mono fun a t ha => ha.mono fun w hw => ⟨a, hw, rfl⟩)) ?_ ?_ s
    · rintro s b t ⟨w, hw, h⟩
      refine ⟨w, hw, fun hi => .inr ?_⟩
      obtain ⟨a, ha, rfl⟩ := h hi
      exact ⟨a, ha, rfl⟩
    · -- a comma is no token of the grammar
      rintro s b t x v l u ⟨w, hw, -⟩ hx hk ⟨w', hw', -⟩
      refine ⟨w ++ x :: w', by simp [hw, hx.rest, hw'], fun hi => ?_⟩
      have inside := hi x (by simp)
      rw [hk] at inside
      cases inside
  · refine (hl.andThen (.token ht)).mono ?_
    rintro _ ⟨v, _, rfl, hv, rfl⟩
    exact ⟨v, x, hx, rfl, hv⟩

lemma finds_chain (he : c.eof.kind = .endOfInput) (hm : n.item = some m) (hn : n ≠ .callable)
    (hf : Finds c (m.rule g) m) (k : Nat) (hd : Found s₀ (Derives n · e) s) :
    (chain n.level (m.rule g) k e).Gives c s fun e' t => Found s₀ (Derives n · e') t := by
  induction k generalizing e s with
  | zero => exact .stop _
  | succ k ih =>
    refine .seen rfl ?_
    split
    · exact .pure hd
    · rename_i op ho
      rw [Nonterminal.lookup_level hm hn] at ho
      have inside : (s.rest.headD c.eof).kind ≠ .endOfInput := by
        intro eof
        rw [eof] at ho
        cases n <;> cases ho
      refine .advance he inside fun operator t hop ht => .bind (hf t) fun right u hu => ih ?_
      subst hop
      refine ((hd.andThen (.token ht)).andThen hu).mono ?_
      rintro _ ⟨_, v', rfl, ⟨v, _, rfl, hv, rfl⟩, hv'⟩
      simpa using Derives.joined hm ho hv hv'

lemma finds_suffixes (hg : Finds c g.expression .expression) (k : Nat)
    (hd : Found s₀ (Derives .callable · e) s) :
    (g.suffixes k e).Gives c s fun e' t => Found s₀ (Derives .callable · e') t := by
  induction k generalizing e s with
  | zero => exact .stop _
  | succ k ih =>
    refine .accept? (fun opening t ho ht => .bind (finds_arguments hg t) fun arguments u hu => ih ?_)
      (.accept? (fun x t hx ht => hd.outside ht (by rw [hx]; rfl))
        (.accept? (fun x t hx ht => hd.outside ht (by rw [hx]; rfl)) (.pure hd)))
    refine ((hd.andThen (.token ht)).andThen hu).mono ?_
    rintro _ ⟨_, _, rfl, ⟨v, _, rfl, hv, rfl⟩, v', closing, hc, rfl, ⟨rfl, rfl⟩ | ⟨a, ha, rfl⟩⟩
    · simpa using Derives.called ho hc hv
    · simpa using Derives.calledWith ho hc hv ha

section

variable (he : c.eof.kind = .endOfInput)
include he

lemma finds_item (hg : Finds c g.expression .expression)
    (hm : n.item = some m) (hf : Finds c (m.rule g) m) : Finds c (n.rule g) n := by
  intro s
  rw [Nonterminal.rule_eq_loop hm]
  refine .bind (hf s) fun first t ht => .seen rfl ?_
  have start : Found s (Derives n · first) t := ht.mono fun _ => .item hm
  by_cases hn : n = .callable
  · subst hn
    exact finds_suffixes hg _ start
  · rw [Nonterminal.loop_of_ne hm hn]
    exact finds_chain he hm hn hf _ start

lemma finds_outside {α : Type} {q : Token → Parse α}
    {R : α → List Token → Prop} {P : List Token → Prop} (h : Found s₀ P s)
    (hk : (s.rest.headD c.eof).kind ≠ .endOfInput ∧ (s.rest.headD c.eof).kind.inOperators = false) :
    (advance >>= q).Gives c s fun a t => Found s₀ (R a) t :=
  .advance he hk.1 fun _ _ hx ht => h.outside ht (hx ▸ hk.2)

lemma finds_primary (hg : Finds c g.expression .expression) :
    Finds c g.primary .tuple := by
  intro s
  refine .seen rfl ?_
  split
  case h_4 hk =>
    refine .advance he (by rw [hk]; decide) fun x t hx ht => .pure ((Found.token ht).mono ?_)
    rintro _ rfl
    exact hx ▸ .number (hx ▸ hk)
  case h_7 hk =>
    refine .advance he (by rw [hk]; decide) fun opening t ho ht => .bind (hg t) fun e u hu =>
      .expect fun closing v hc hv => .pure ?_
    refine (((Found.token ht).andThen hu).andThen (.token hv)).mono ?_
    rintro _ ⟨_, _, rfl, ⟨_, w, rfl, rfl, hw⟩, rfl⟩
    exact .grouped (ho ▸ hk) hc hw
  case h_9 => exact .fail
  all_goals
    rename_i hk
    exact finds_outside he (.nil (P := (· = [])) rfl) (by rw [hk]; decide)

lemma finds_base (hg : Finds c g.expression .expression) :
    Finds c g.base .tuple := by
  intro s
  have outside {α : Type} {q : Token → Parse α} {R : α → List Token → Prop} {kind : TokenKind}
      (hk : kind.inOperators = false) (x : Token) (t : ParseState) (hx : x.kind = kind)
      (ht : Takes s x t) : (q x).Gives c t fun a u => Found s (R a) u :=
    (Found.nil (P := (· = [])) rfl).outside ht (hx ▸ hk)
  exact .accept (outside rfl) (.accept? (outside rfl) (.accept? (outside rfl)
    (.accept? (outside rfl) (finds_primary he hg s))))

end

lemma signs_of_unaryOf? {k} (h : unaryOf? k = some op) : Signs k op := by
  unfold unaryOf? at h
  split at h <;> cases h
  · exact .not
  · exact .negate
  · exact .bitNot

lemma finds_prefixed (he : c.eof.kind = .endOfInput) (hu : Finds c g.unary .unary)
    (hs : Finds c g.suffixed .callable) : Finds c g.prefixed .unary := by
  intro s
  refine .seen rfl ?_
  split
  · rename_i op ho
    have signs := signs_of_unaryOf? ho
    have seen : (s.rest.headD c.eof).kind ≠ .endOfInput := by
      intro eof
      rw [eof] at signs
      cases signs
    refine .advance he seen fun operator t hop ht => .bind (hu t) fun e u hu => .pure ?_
    refine ((Found.token ht).andThen hu).mono ?_
    rintro _ ⟨_, w, rfl, rfl, hw⟩
    exact .signed (hop ▸ signs) hw
  · split
    · rename_i op what ho
      -- a step is no token of the grammar
      refine finds_outside he (.nil (P := (· = [])) rfl) ?_
      revert ho
      cases (s.rest.headD c.eof).kind <;> simp [stepOf?, inOperators]
    · exact (hs s).mono fun e t h => h.mono fun _ => .unary

lemma finds_assigned (he : c.eof.kind = .endOfInput) (h : Finds c (g.leveled levels) .logicXor) :
    Finds c g.assigned .assignment := by
  refine fun s => .bind (h s) fun target t ht => .seen rfl ?_
  split
  · exact .pure (ht.mono fun _ => .assignment)
  · rename_i update ho
    -- an assignment is no token of the grammar
    refine finds_outside he ht ?_
    revert ho
    cases (t.rest.headD c.eof).kind <;> simp [updateOf?, inOperators]

lemma finds_conditional (h : Finds c g.assigned .assignment)
    (hg : Finds c g.expression .expression) : Finds c g.conditional .expression := by
  refine fun s => .bind (h s) fun test t ht => .accept? (fun question u hq hu => .bind (hg u)
    fun first v hf => .expect fun colon w hc hw => .bind (hg w) fun second x hs => .pure ?_)
    (.pure (ht.mono fun _ => .expression))
  refine ((((ht.andThen (.token hu)).andThen hf).andThen (.token hw)).andThen hs).mono ?_
  rintro _ ⟨_, w₃, rfl, ⟨_, _, rfl, ⟨_, w₂, rfl, ⟨w₁, _, rfl, h₁, rfl⟩, h₂⟩, rfl⟩, h₃⟩
  simpa using Derives.condition hq hc h₁ h₂ h₃

lemma finds_rules (he : c.eof.kind = .endOfInput) (hu : Finds c g.unary .unary)
    (hg : Finds c g.expression .expression) :
    Finds c g.prefixed .unary ∧ Finds c g.conditional .expression := by
  have tuple : Finds c (Nonterminal.rule g .tuple) .tuple := finds_base he hg
  have callable := finds_item (n := .callable) he hg rfl tuple
  have unary : Finds c (Nonterminal.rule g .unary) .unary := finds_prefixed he hu callable
  have factor := finds_item (n := .factor) he hg rfl unary
  have term := finds_item (n := .term) he hg rfl factor
  have bitShift := finds_item (n := .bitShift) he hg rfl term
  have bitLogic := finds_item (n := .bitLogic) he hg rfl bitShift
  have comparison := finds_item (n := .comparison) he hg rfl bitLogic
  have equality := finds_item (n := .equality) he hg rfl comparison
  have logicAnd := finds_item (n := .logicAnd) he hg rfl equality
  have logicOr := finds_item (n := .logicOr) he hg rfl logicAnd
  have logicXor := finds_item (n := .logicXor) he hg rfl logicOr
  exact ⟨unary, finds_conditional (finds_assigned he logicXor) hg⟩

/-- **What is read is derived.** -/
theorem finds_unrolled (he : c.eof.kind = .endOfInput) (depth : Nat) :
    Finds c (unrolled depth).unary .unary ∧ Finds c (unrolled depth).expression .expression := by
  induction depth with
  | zero => exact ⟨fun _ => .stop _, fun _ => .stop _⟩
  | succ depth ih => exact finds_rules he ih.1 ih.2

end Grammar

/-- **The parser of expressions reads just what the grammar derives.**  On tokens of the grammar in
front of a semicolon it reads up to the semicolon if and only if the tokens are derived as an
expression, and it gives what is read off the derivation. -/
theorem expression_iff_derives {c : ParseContext} (he : c.eof.kind = .endOfInput) {w : List Token}
    (hw : ∀ t ∈ w, t.kind.inOperators) {depth : Nat} (hd : w.length ≤ depth)
    (hb : w.length < c.bound) {s : ParseState} {semicolon : Token} {rest : List Token}
    (hk : semicolon.kind = .semicolon) (hs : s.rest = w ++ semicolon :: rest) (e : Expr) :
    (∃ t, (Grammar.unrolled depth).expression.run c s = .ok e t ∧ t.rest = semicolon :: rest) ↔
      Derives .expression w e := by
  constructor
  · rintro ⟨t, h, ht⟩
    obtain ⟨v, hv, derives⟩ := (Grammar.finds_unrolled he depth).2 s e t h
    obtain rfl : w = v := append_cancel_right (hs.symm.trans (ht ▸ hv))
    exact derives hw
  · intro h
    have some := length_pos_iff.2 h.ne_nil
    obtain ⟨depth, rfl⟩ : ∃ d, depth = d + 1 := ⟨depth - 1, by omega⟩
    have reads := (h.reads hb depth hd).1 s (semicolon :: rest) hs (by rw [headD_cons, hk]; decide)
    exact ⟨_, reads, rfl⟩

/-- `- 1 * 2 - 3 ( ) - ( 4 )` is the difference of a difference and a number. -/
theorem expression_iff_derives_minus :
    let token (kind : TokenKind) : Token := { kind := kind, lexeme := "", location := default }
    let number : Expr := .literal .null default
    let w := [minus, .number, .star, .number, .minus, .number, .leftParen, .rightParen,
      .minus, .leftParen, .number, .rightParen].map token
    Derives .expression w
      (.binary .sub
        (.binary .sub (.binary .mul (.unary .negate number default) number default)
          (.call number [] default) default)
        number default) := by
  intro token number w
  let c : ParseContext := { eof := token .endOfInput, natives := .standard, bound := 13 }
  let s : ParseState :=
    { last := token .minus, rest := w ++ [token .semicolon], scopes := ScopeTable.reset {} [] }
  have iff := expression_iff_derives (c := c) rfl (w := w) (by decide) (Nat.le_refl 12)
    (Nat.lt_succ_self 12) (s := s) rfl rfl
  exact (iff _).1 ⟨_, rfl, rfl⟩

end DynScript

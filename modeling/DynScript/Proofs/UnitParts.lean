import DynScript.Proofs.Renumbering

/-!
# Reading a unit in parts

When the tokens of a unit are followed by those of another one, the declarations of the first come
first, and the parse is then where the parse of the first unit has ended, with the tokens of the
second one to come.

Main declarations: `Parallel.first_part`, `Parallel.second_part`.
-/

namespace DynScript

open List ParseResult ScopeTable

/-! ### Announced labels -/

namespace Parse

variable {t : ScopeTable} {name : String}

lemma label?_announced {x : Token} (h : (t.current.label? name).isSome ∨ x.lexeme ≠ name) :
    (announced t x).current.label? name = t.current.label? name := by
  unfold announced
  split
  · rfl
  · rename_i new
    rw [announce, defineLabel_eq, if_neg new]
    rw [current_setCurrent, Scope.label?_addLabel_eq]
    rcases h with known | other
    · obtain ⟨e, he⟩ := Option.isSome_iff_exists.1 known
      rw [he, Option.some_or]
    · rw [if_neg other, Option.or_none]

lemma label?_foldl_announced {names : List Token}
    (h : (t.current.label? name).isSome ∨ ∀ x ∈ names, x.lexeme ≠ name) :
    (names.foldl announced t).current.label? name = t.current.label? name := by
  induction names generalizing t with
  | nil => rfl
  | cons x names ih =>
    have here : (announced t x).current.label? name = t.current.label? name :=
      label?_announced (h.imp_right fun h => h x mem_cons_self)
    rw [foldl_cons, ih, here]
    rw [here]
    exact h.imp_right fun h y hy => h y (mem_cons_of_mem x hy)

lemma isSome_label?_foldl_announced {names : List Token} {x : Token} (hx : x ∈ names) :
    ((names.foldl announced t).current.label? x.lexeme).isSome := by
  induction names generalizing t with
  | nil => cases hx
  | cons y names ih =>
    rcases mem_cons.1 hx with rfl | hx
    · have here : ((announced t x).current.label? x.lexeme).isSome := by
        unfold announced
        split
        · assumption
        · rename_i new
          rw [announce, defineLabel_eq, if_neg new]
          simp [Scope.label?_addLabel_eq]
      rw [foldl_cons, label?_foldl_announced (.inl here)]
      exact here
    · exact ih hx

lemma foldl_announced_linked (names : List Token) (linked) :
    names.foldl announced { t with linked := linked } =
      { names.foldl announced t with linked := linked } := by
  induction names generalizing t with
  | nil => rfl
  | cons x names ih =>
    have here : announced { t with linked := linked } x =
        { announced t x with linked := linked } := by
      have same : current { t with linked := linked } = t.current := rfl
      unfold announced
      rw [same]
      by_cases known : (t.current.label? x.lexeme).isSome
      · simp only [known, ↓reduceIte]
      · simp only [known, announce, defineLabel_eq, same, Bool.false_eq_true,
          ↓reduceIte, setCurrent]
        cases t.inner <;> rfl
    rw [foldl_cons, foldl_cons, here, ih]

end Parse

/-! ### No declaration starts with `else` -/

namespace Grammar

open Parse

variable {g : Grammar} {c : ParseContext} {s u : ParseState} {x : Token} {rest : List Token}

lemma run_suffixed_else (hs : s.rest = x :: rest) (hx : x.kind = .kwElse) :
    g.suffixed.run c s = .error (.error { fault := .missingExpression, token := x }) s := by
  simp [suffixed, base, accept, operand, primary, run_accept?, hs, hx]

lemma run_leveled_else (hs : s.rest = x :: rest) (hx : x.kind = .kwElse) (l) :
    (g.leveled l).run c s = .error (.error { fault := .missingExpression, token := x }) s := by
  induction l with
  | nil => simp [leveled, prefixed, hs, hx, unaryOf?, stepOf?, run_suffixed_else hs hx]
  | cons level l ih => simp [leveled, ih]

lemma errors_ne_nil_of_else (hs : s.rest = x :: rest) (hx : x.kind = .kwElse) {o}
    (h : g.declarationRule.run c s = .ok o u) : u.errors ≠ [] := by
  have failed : g.statementRule.run c s =
      .error (.error { fault := .missingExpression, token := x }) s := by
    simp [statementRule, hs, hx, expressionStatement, conditional, assigned, run_leveled_else hs hx]
  simp only [declarationRule, attempt, run_recovering, recovery, run_bind, run_peek, andThen_ok, hs,
    headD_cons, hx, run_map, failed, andThen_error] at h
  split at h <;> cases h
  exact append_ne_nil_of_right_ne_nil _ (cons_ne_nil _ _)

lemma not_else_of_unit {depth n : Nat} {l} (h : ((unrolled depth).unit n).run c s = .ok l u)
    (hu : u.errors = []) : ∀ t ∈ s.rest.head?, t.kind ≠ .kwElse := by
  intro t ht hk
  obtain ⟨rest, hs⟩ : ∃ rest, s.rest = t :: rest := by
    cases hr : s.rest with
    | nil => simp [hr] at ht
    | cons y rest => exact ⟨rest, by simpa [hr] using ht⟩
  cases n with
  | zero => simp [unit] at h
  | succ n =>
    simp only [unit, run_bind, run_atEnd, hs, isEmpty_cons, andThen_ok,
      Bool.false_eq_true, ↓reduceIte, run_pure, andThen_eq_ok] at h
    obtain ⟨o, v, ho, l', w, hl, h⟩ := h
    cases h
    cases depth with
    | zero => simp [unrolled] at ho
    | succ depth =>
      have broken := errors_ne_nil_of_else (g := unrolled depth) hs hk ho
      exact Parallel.errors_ne_nil_of_onward (onward_of_ok hl) broken hu

end Grammar

/-! ### Parts of a unit -/

namespace Parallel

open Parse

variable {P : Parallel} {g h : Grammar}

/-- States of parallel parses, with more tokens in the second. -/
structure Abreast (P : Parallel) (s s' : ParseState) : Prop where
  rest : ∃ own, s'.rest = own ++ P.more ∧ Forall₂ P.Tokens s.rest own
  scopes : s.scopes.Like P.toOverlay s'.scopes
  errors : s.errors = s'.errors

variable {s s' : ParseState}

lemma States.abreast (hs : P.States s s') : P.Abreast s s' :=
  ⟨hs.rest, hs.scopes, hs.errors⟩

lemma Abreast.states (hs : P.Abreast s s') (hf : ¬ P.full) (hr : s.rest ≠ []) : P.States s s' :=
  ⟨fun k => k.elim (absurd · hf) fun k => absurd k.1 hr, hs.rest, hs.scopes, hs.errors⟩

lemma Abreast.rest_ne_nil (hs : P.Abreast s s') (hr : s.rest ≠ []) : s'.rest ≠ [] := by
  obtain ⟨own, he, hl⟩ := hs.rest
  intro none
  rw [he] at none
  obtain ⟨rfl, -⟩ := append_eq_nil_iff.1 none
  exact hr (forall₂_nil_right_iff.1 hl)

/-- **The declarations of the first unit,** which the second parse reads without errors and then goes
on. -/
theorem first_part (hg : g.Follows P h) (hh : h.Sound P.second) (hf : ¬ P.full) :
    ∀ {n n' : Nat} {s s' t u' : ParseState} {l l' : List Stmt}, P.Abreast s s' →
      (g.unit n).run P.first s = .ok l t → P.Good t →
      (h.unit n').run P.second s' = .ok l' u' → u'.errors = [] →
      ∃ l₁ l₂ t' m, l' = l₁ ++ l₂ ∧ Forall₂ P.coding.stmt l l₁ ∧ P.Abreast t t' ∧
        Declares s' l₁ t' ∧ (h.unit m).run P.second t' = .ok l₂ u'
  | 0, _, _, _, _, _, _, _, _, hl, _, _, _ => by simp [Grammar.unit] at hl
  | n + 1, n', s, s', t, u', l, l', hs, hl, good, hl', clean => by
    simp only [Grammar.unit, run_bind, run_atEnd, andThen_ok] at hl
    split at hl
    · cases hl
      exact ⟨[], l', s', n', rfl, .nil, hs, .nil s', hl'⟩
    · rename_i more
      have ahead : s.rest ≠ [] := by simpa using more
      have ahead' : s'.rest.isEmpty = false := by simpa using hs.rest_ne_nil ahead
      simp only [run_bind, run_pure, andThen_eq_ok] at hl
      obtain ⟨o, v, ho, l, w, hl, e⟩ := hl
      cases e
      cases n' with
      | zero => simp [Grammar.unit] at hl'
      | succ n' =>
        simp only [Grammar.unit, run_bind, run_atEnd, ahead', andThen_ok,
          Bool.false_eq_true, ↓reduceIte, run_pure, andThen_eq_ok] at hl'
        obtain ⟨o', v', ho', l', w', hl', e⟩ := hl'
        cases e
        -- The declaration cannot be broken in the second parse, which has no errors.
        have outcome := hg.declaration s s' (hs.states hf ahead) False.elim
        rw [ho, ho'] at outcome
        rcases outcome (good.of_onward (onward_of_ok hl)) False.elim with
          ⟨-, broken⟩ | ⟨_, _, e, like, states⟩
        · exact absurd clean (errors_ne_nil_of_onward (onward_of_ok hl') broken)
        · cases e
          obtain ⟨l₁, l₂, t', m, rfl, likes, ht, declares, rest⟩ :=
            first_part hg hh hf states.abreast hl good hl' clean
          exact ⟨_, l₂, t', m, by rw [append_assoc],
            rel_append (forall₂_toList like) likes, ht,
            (hh.declaration _ _ _ ho').append declares, rest⟩

/-- **The declarations of the second unit,** with which the second parse ends. -/
theorem second_part (hg : g.Follows P h) (hh : h.Sound P.second) (hf : ¬ P.full)
    (none : P.more = []) {n n' : Nat} {s s' t u'} {l l'} (hs : P.Abreast s s')
    (hl : (g.unit n).run P.first s = .ok l t) (good : P.Good t)
    (hl' : (h.unit n').run P.second s' = .ok l' u') (clean : u'.errors = []) :
    Forall₂ P.coding.stmt l l' ∧ P.Abreast t u' := by
  obtain ⟨l₁, l₂, t', m, rfl, likes, ht, -, rest⟩ := first_part hg hh hf hs hl good hl' clean
  have ended : t'.rest = [] := by
    obtain ⟨own, he, tokens⟩ := ht.rest
    rw [(Grammar.declares_unit (hg.sound.resolve_left hf) _ _ _ _ hl).2, forall₂_nil_left_iff] at tokens
    rw [he, tokens, none, append_nil]
  cases m with
  | zero => simp [Grammar.unit] at rest
  | succ m =>
    simp only [Grammar.unit, run_bind, run_atEnd, ended, isEmpty_nil, andThen_ok,
      ↓reduceIte, run_pure] at rest
    cases rest
    rw [append_nil]
    exact ⟨likes, ht⟩

end Parallel

end DynScript

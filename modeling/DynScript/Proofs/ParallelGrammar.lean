import DynScript.Proofs.ParallelParses
import DynScript.Proofs.StatementScoping

/-!
# The grammar in parallel parses

Every rule of the grammar does in the second of two parallel parses what it does in the first, and
builds like code, supposing that this holds of the rules that it calls recursively (`Grammar.Follows`).
-/

namespace DynScript

open Parse List Grammar

namespace Parallel

variable {P : Parallel}

/-! ### Labels ahead -/

lemma tokens_labelsAhead {l l'} (h : Forall₂ P.Tokens l l') (d : Nat) :
    Forall₂ P.Tokens (labelsAhead d l) (labelsAhead d l') := by
  induction h generalizing d with
  | nil => exact .nil
  | @cons t t' l l' ht hl ih =>
    have head : Forall₂ P.Tokens (l.head?.filter (·.kind = .identifier)).toList
        (l'.head?.filter (·.kind = .identifier)).toList := by
      cases hl with
      | nil => exact .nil
      | cons hx _ =>
        simp only [head?_cons, Option.filter_some, ← hx.kind]
        split
        · exact .cons hx .nil
        · exact .nil
    unfold labelsAhead
    rw [← ht.kind]
    split
    · exact ih _
    · split
      · exact .nil
      · exact ih _
    · split
      · exact rel_append head (ih _)
      · exact ih _
    · exact ih _

lemma eq_zero_of_labelsAhead {d : Nat}
    (h : ∀ r, labelsAhead d r = labelsAhead 0 r) : d = 0 := by
  have := h [{ kind := .kwLabel, lexeme := "", location := default },
    { kind := .identifier, lexeme := "", location := default }]
  cases d with
  | zero => rfl
  | succ d => simp [labelsAhead] at this

lemma tokens_labelsAhead_closed {seg seg'} (hs : Forall₂ P.Tokens seg seg') {x x'}
    (hx : P.Tokens x x') (hk : x.kind = .rightBrace) {d : Nat}
    (h : ∀ r, labelsAhead (d + 1) (seg ++ x :: r) = labelsAhead 0 r) (r r') :
    Forall₂ P.Tokens (labelsAhead d (seg ++ x :: r)) (labelsAhead d (seg' ++ x' :: r')) := by
  induction hs generalizing d with
  | nil =>
    have : d = 0 := eq_zero_of_labelsAhead fun r => by simpa [labelsAhead, hk] using h r
    subst this
    simp [labelsAhead, hk, ← hx.kind]
  | @cons t t' seg seg' ht hs ih =>
    have head : Forall₂ P.Tokens
        ((seg ++ x :: r).head?.filter (·.kind = .identifier)).toList
        ((seg' ++ x' :: r').head?.filter (·.kind = .identifier)).toList := by
      have like {y y' : Token} (hy : P.Tokens y y') : Forall₂ P.Tokens
          ((some y).filter (·.kind = .identifier)).toList
          ((some y').filter (·.kind = .identifier)).toList := by
        simp only [Option.filter_some, ← hy.kind]
        split
        · exact .cons hy .nil
        · exact .nil
      cases hs with
      | nil => exact like hx
      | cons hy _ => exact like hy
    simp only [cons_append, labelsAhead] at h ⊢
    rw [← ht.kind]
    split
    · rename_i ho
      simp only [ho] at h
      exact ih h
    · rename_i hc
      simp only [hc, Nat.succ_ne_zero, ↓reduceIte, Nat.add_sub_cancel] at h
      split
      · exact .nil
      · cases d with
        | zero => contradiction
        | succ d => exact ih h
    · rename_i hl
      simp only [hl, Nat.succ_ne_zero, ↓reduceIte] at h
      split
      · exact rel_append head (ih h)
      · exact ih h
    · split at h
      · contradiction
      · contradiction
      · contradiction
      · exact ih h

lemma forall₂_append_left {α β : Type} {R : α → β → Prop} {a b l} (h : Forall₂ R (a ++ b) l) :
    ∃ a' b', l = a' ++ b' ∧ Forall₂ R a a' ∧ Forall₂ R b b' := by
  refine ⟨l.take a.length, l.drop a.length, (take_append_drop _ _).symm, ?_, ?_⟩
  · simpa using forall₂_take a.length h
  · simpa using forall₂_drop a.length h

lemma tokens_labelsAhead_block {s s'} (hs : P.States s s')
    (h : P.full ∨ ∃ seg x r, s.rest = seg ++ x :: r ∧ x.kind = .rightBrace ∧ Shift 1 1 seg) :
    Forall₂ P.Tokens (labelsAhead 0 s.rest) (labelsAhead 0 s'.rest) := by
  obtain ⟨own, he, hr⟩ := hs.rest
  rcases h with full | ⟨seg, x, r, hseg, hx, shift⟩
  · rw [he, P.full_more full, append_nil]
    exact tokens_labelsAhead hr 0
  · rw [hseg] at hr ⊢
    obtain ⟨seg', own, rfl, hsegs, hr⟩ := forall₂_append_left hr
    obtain ⟨x', r', hxx, -, rfl⟩ := forall₂_cons_left_iff.1 hr
    rw [he, append_assoc, cons_append]
    refine tokens_labelsAhead_closed hsegs hxx hx (fun r => ?_) _ _
    have := shift 0 (x :: r)
    simpa [labelsAhead, hx] using this

lemma Follows.announceLabels {α β : Type} {deep lax : Prop} {R : α → β → Prop} {f} {f'}
    (hf : P.Follows deep lax R f f') (hx : deep ∨ P.full)
    (hc : P.full ∨ ∀ s a u, f.run P.first s = .ok a u → u.errors = s.errors →
      ∃ seg x r, s.rest = seg ++ x :: r ∧ x.kind = .rightBrace ∧ Shift 1 1 seg) :
    P.Follows deep lax R (Parse.announceLabels >>= fun _ => f)
      (Parse.announceLabels >>= fun _ => f') := by
  intro s s' hs hd
  let v : ParseState := { s with scopes := (labelsAhead 0 s.rest).foldl announced s.scopes }
  let v' : ParseState := { s' with scopes := (labelsAhead 0 s'.rest).foldl announced s'.scopes }
  have deeper (h : deep) : v.scopes.inner ≠ [] :=
    inner_of_onward (s := s) ⟨suffix_refl _, prefix_refl _, onward_announced _ _⟩ (hd h)
  have known (x : Token) : x.lexeme ∉ P.extraAt s.scopes.inner.isEmpty := by
    rcases hx with h | full
    · simp [isEmpty_eq_false_iff.2 (hd h), Overlay.extraAt]
    · have none : P.extra = [] := by_contra fun hx => P.full_improper full (.inr hx)
      simp [Overlay.extraAt, none]
  have states (hw : P.Within v.scopes)
      (hn : Forall₂ P.Tokens (labelsAhead 0 s.rest) (labelsAhead 0 s'.rest)) :
      P.States v v' :=
    ⟨hs.last, hs.rest, hs.scopes.foldl_announced (hn.imp fun _ _ h => h.lexeme) (fun x _ => known x)
      hw.labels, hs.errors⟩
  show P.Outcome lax R (f.run P.first v) (f'.run P.second v')
  have onward := f.onward P.first v
  cases hr : f.run P.first v with
  | error e t =>
    rw [hr] at onward
    intro full within
    have names := tokens_labelsAhead_block hs (.inl full)
    have := hf v v' (states (within.of_onward onward.scopes) names) deeper
    rw [hr] at this
    exact this full within
  | ok a t =>
    rw [hr] at onward
    intro good ahead
    have before := good.of_onward onward
    have names : Forall₂ P.Tokens (labelsAhead 0 s.rest) (labelsAhead 0 s'.rest) := by
      refine tokens_labelsAhead_block hs ?_
      rcases hc with full | closed
      · exact .inl full
      · exact good.errors.imp_right fun he =>
          closed v a t hr (he.trans (prefix_nil.1 (he ▸ onward.errors)).symm)
    have := hf v v' (states before.within names) deeper
    rw [hr] at this
    exact this good ahead

end Parallel

/-! ### The statement about a grammar -/

namespace Grammar

open Parallel

/-- The rules of the grammar `h` do in the second parse what those of `g` do in the first. -/
structure Follows (P : Parallel) (g h : Grammar) : Prop where
  unary : P.Follows False True P.coding.expr g.unary h.unary
  expression : P.Follows False True P.coding.expr g.expression h.expression
  statement : P.Follows False False P.coding.stmt g.statement h.statement
  declaration : P.Follows False False (Option.Rel P.coding.stmt) g.declaration
    h.declaration
  sound : P.full ∨ g.Sound P.first

namespace Follows

variable {P : Parallel} {g h : Grammar} {deep lax : Prop}

lemma expression' (hg : g.Follows P h) :
    P.Follows deep True P.coding.expr g.expression h.expression :=
  hg.expression.weaken id

lemma statement' (hg : g.Follows P h) :
    P.Follows deep lax P.coding.stmt g.statement h.statement :=
  hg.statement.weaken False.elim

/-! ### Blocks and parameters -/

lemma declarations (hg : g.Follows P h) : ∀ {n n' : Nat}, Follows.Rounds P n n' →
    P.Follows deep True (Forall₂ P.coding.stmt) (g.declarations n)
      (h.declarations n')
  | 0, _, hn => .exhausted hn rfl
  | n + 1, 0, hn => absurd hn.1 (by omega)
  | n + 1, n' + 1, hn => by
    refine (Parallel.Follows.check .rightBrace (.inl trivial)).bindLax fun x _ e => ?_
    subst e
    refine Parallel.Follows.atEnd.bindLax fun y _ e => ?_
    subst e
    split
    · exact .pure .nil
    · exact (hg.declaration.weaken False.elim).bindLax fun _ _ ho =>
        (hg.declarations hn.pred).bindLax fun _ _ hl => .pure (rel_append (forall₂_toList ho) hl)

lemma block (hg : g.Follows P h) {brace brace'} (hb : P.Tokens brace brace') :
    P.Follows deep lax P.coding.block (g.block brace) (h.block brace') := by
  refine .inScope (.announceLabels (.bind .rounds (fun _ _ hn => .bindExpect (hg.declarations hn)
    fun _ _ hl _ _ _ => .bind .currentSlots (fun _ _ hs => .pure (P.lawful.block hl hs hb.place)) .inl)
    .inl) (.inl trivial) (hg.sound.imp_right fun sound => ?_))
  intro s b u hr he
  simp only [run_bind, ParseResult.andThen_eq_ok, run_rounds, run_currentSlots, run_pure,
    ParseResult.andThen_ok] at hr
  obtain ⟨l, t, hl, x, v, hx, hr⟩ := hr
  cases hr
  obtain ⟨hk, hx⟩ := takes_of_expect hx
  have declares := gives_declarations sound _ _ _ _ hl
  have none := (errors_eq_of_onward declares.onward hx.onward he).1
  obtain ⟨seg, hs, shift⟩ := declares.shift none
  exact ⟨seg, x, u.rest, by rw [hs, hx.rest], hk, shift⟩

lemma parameters : P.Follows deep lax (Forall₂ P.coding.slot)
    parameters parameters := by
  refine Parallel.Follows.enclosed (R := P.coding.slot) ?_ _ _
  exact .bindLax (.name _) fun _ _ ht => (Parallel.Follows.declare ht false).mono fun _ _ => And.left

/-! ### Operands -/

lemma boxed (hg : g.Follows P h) : P.Follows deep True P.coding.part
    (Expr.boxed <$> g.expression) (Expr.boxed <$> h.expression) :=
  hg.expression'.map fun _ _ => P.lawful.boxed

lemma arrayLiteral (hg : g.Follows P h) {bracket bracket'} (hb : P.Tokens bracket bracket') :
    P.Follows deep True P.coding.expr
      (g.arrayLiteral bracket) (h.arrayLiteral bracket') :=
  .bindLax (.enclosed hg.boxed _ _) fun _ _ hl => .pure (P.lawful.array hl hb.place)

lemma fieldName : P.Follows deep True Eq fieldName fieldName := by
  refine .bindLax (.accept? .identifier (.inl trivial)) fun o o' ho => ?_
  cases ho with
  | some ht => exact .pure ht.lexeme
  | none =>
    refine .bindLax (.accept? .string (.inl trivial)) fun o o' ho => ?_
    cases ho with
    | some ht =>
      refine .pure ?_
      rw [← ht.literal, ← ht.lexeme]
    | none => exact .bindLax .advance fun _ _ ht => .fail (fun _ => rfl) ht.same

lemma recordField (hg : g.Follows P h) :
    P.Follows deep True P.coding.fields g.recordField h.recordField := by
  refine .bindLax fieldName fun name _ e => ?_
  subst e
  exact .bindLax (.expect _ _) fun _ _ _ => .bindLax hg.expression' fun _ _ he =>
    .pure ⟨rfl, P.lawful.boxed he⟩

lemma recordLiteral (hg : g.Follows P h) {brace brace'} (hb : P.Tokens brace brace') :
    P.Follows deep True P.coding.expr (g.recordLiteral brace)
      (h.recordLiteral brace') := by
  have inside : P.Follows True True (fun x x' => P.coding.slot x.1 x'.1 ∧
        Forall₂ P.coding.fields x.2 x'.2)
      (do
        let self ← declareOwn "this" brace
        return (self, ← listed g.recordField .rightBrace))
      (do
        let self ← declareOwn "this" brace'
        return (self, ← listed h.recordField .rightBrace)) :=
    .bindLax (.declareOwn hb (P.lawful.names _ (by simp))) fun _ _ hs =>
      .bindLax (.listed hg.recordField _) fun _ _ hl => .pure ⟨hs.1, hl⟩
  exact .bindLax (.inScope inside) fun _ _ hx => .bindLax (.expect _ _) fun _ _ _ =>
    .pure (P.lawful.record hx.2 hx.1 hb.place)

lemma lambdaBody (hg : g.Follows P h) {exit exit'} (he : P.coding.label exit exit') :
    P.Follows deep True P.coding.block (g.lambdaBody exit) (h.lambdaBody exit') := by
  refine .bindLax (.accept? .fatArrow (.inl trivial)) fun o o' ho => ?_
  cases ho with
  | some ht =>
    exact .bindLax hg.expression' fun _ _ hv =>
      .pure (P.lawful.block (.cons (P.lawful.jump he (.some (P.lawful.boxed hv)) ht.place) .nil) .nil
        ht.place)
  | none => exact .bindLax (.expect _ _) fun _ _ hb => hg.block hb

lemma lambdaName : P.Follows deep True (fun n n' => n = n' ∧ P.coding.name n)
    lambdaName lambdaName := by
  refine .bindLax (.accept? .identifier (.inl trivial)) fun o o' ho => ?_
  cases ho with
  | @some t t' ht =>
    dsimp only
    rw [← ht.lexeme]
    split
    · exact .pure ⟨rfl, P.lawful.names _ (by simp)⟩
    · exact .fail (fun _ => rfl) ht.same
  | none => exact .pure ⟨rfl, P.lawful.names _ (by simp)⟩

lemma lambda (hg : g.Follows P h) {keyword keyword'} (hk : P.Tokens keyword keyword') :
    P.Follows deep True P.coding.expr (g.lambda keyword) (h.lambda keyword') := by
  refine .bindLax lambdaName fun name _ e => ?_
  obtain ⟨rfl, hn⟩ := e
  exact .inScope <| .bindLax (.declareOwn hk hn) fun _ _ hs =>
    .bindLax (.reserve _) fun _ _ he => .bindLax (.expect _ _) fun _ _ _ =>
    .bindLax parameters fun _ _ hp => .bindLax (hg.lambdaBody he) fun _ _ hb =>
    .pure (P.lawful.of_part (P.lawful.function hp hb he (.some hs.1) hk.place))

lemma before_eq_nil (full : P.full) : P.before = [] := by
  by_contra hb
  exact P.full_improper full (.inl hb)

variable {t t' : Token} {e e' : Expr}

lemma variableRead (ht : P.Tokens t t') :
    P.Follows deep True P.coding.expr (variableRead t) (variableRead t') := by
  refine .bindLax .scopes fun scopes scopes' hs => ?_
  have found := hs.1.lookup t.lexeme
  rw [← ht.lexeme]
  generalize scopes.lookup t.lexeme = o at found
  generalize scopes'.lookup t.lexeme = o' at found
  cases found with
  | some hx => exact .pure (P.lawful.read hx ht.place)
  | none =>
    refine .fail (fun full => ?_) ht.same
    rw [hs.1.similar (before_eq_nil full)]

lemma primary (hg : g.Follows P h) :
    P.Follows deep True P.coding.expr g.primary h.primary := by
  refine .bindLax .peek fun t t' next => ?_
  rw [← next.kind]
  by_cases ended : t.kind = .endOfInput
  · rw [ended]
    exact .fail (fun _ => rfl) next.same
  have ht := next.tokens ended
  split
  · exact .bindLax .advance fun _ _ _ => .pure (P.lawful.literal ht.place)
  · exact .bindLax .advance fun _ _ _ => .pure (P.lawful.literal ht.place)
  · exact .bindLax .advance fun _ _ _ => .pure (P.lawful.literal ht.place)
  · rw [← ht.literal]
    exact .bindLax .advance fun _ _ _ => .pure (P.lawful.literal ht.place)
  · rw [← ht.literal]
    exact .bindLax .advance fun _ _ _ => .pure (P.lawful.literal ht.place)
  · exact .bindLax .advance fun _ _ _ => variableRead ht
  · exact .bindLax .advance fun _ _ _ => .bindLax hg.expression' fun _ _ he =>
      .bindLax (.expect _ _) fun _ _ _ => .pure he
  · refine .bindLax .advance fun _ _ _ => .bindLax .scopes fun scopes scopes' hs => ?_
    have found := hs.1.lookup "this"
    generalize scopes.lookup "this" = o at found
    generalize scopes'.lookup "this" = o' at found
    cases found with
    | some hx => exact .pure (P.lawful.read hx ht.place)
    | none => exact .fail (fun _ => rfl) ht.same
  · exact .fail (fun _ => rfl) ht.same

lemma operand (hg : g.Follows P h) :
    P.Follows deep True P.coding.expr g.operand h.operand := by
  refine .bindLax (.accept? .leftBracket (.inl trivial)) fun o o' ho => ?_
  cases ho with
  | some ht => exact hg.arrayLiteral ht
  | none =>
    refine .bindLax (.accept? .leftBrace (.inl trivial)) fun o o' ho => ?_
    cases ho with
    | some ht => exact hg.recordLiteral ht
    | none =>
      refine .bindLax (.accept? .kwFun (.inl trivial)) fun o o' ho => ?_
      cases ho with
      | some ht => exact hg.lambda ht
      | none => exact hg.primary

/-! ### Behind an operand -/

lemma arguments (hg : g.Follows P h) : P.Follows deep True (Forall₂ P.coding.part)
    g.arguments h.arguments :=
  .enclosed hg.boxed _ _

lemma nativeCall (hg : g.Follows P h) :
    P.Follows deep True P.coding.expr g.nativeCall h.nativeCall := by
  refine .bindLax (.expect _ _) fun name name' hn => .bindLax .context ?_
  rintro c c' ⟨rfl, rfl⟩
  dsimp only
  rw [← hn.lexeme, ← P.natives]
  cases hf : P.first.natives.lookup name.lexeme with
  | none => exact .fail (fun _ => rfl) hn.same
  | some f =>
    exact .bindLax (.expect _ _) fun _ _ _ => .bindLax hg.arguments fun _ _ hl =>
      .pure (P.lawful.native (P.allowed _ f hf) hl hn.place)

lemma checkIndex : P.Follows deep True Eq checkIndex checkIndex := by
  refine .bindLax (.check .rightBracket (.inl trivial)) fun x _ e => ?_
  subst e
  split
  · exact .bindLax .advance fun _ _ ht => .fail (fun _ => rfl) ht.same
  · exact .pure rfl

lemma checkItems_of_isOther (h : e.isOther = true) (t) :
    checkItems e t = Pure.pure () := by
  cases e <;> first | rfl | cases h

lemma checkFields_of_isOther (h : e.isOther = true) (t) :
    checkFields e t = Pure.pure () := by
  cases e <;> first | rfl | cases h

lemma assignment_of_isOther (h : e.isOther = true) (u t what) :
    assignment e u t what = Parse.fail (.invalidTarget what) t := by
  cases e <;> first | rfl | cases h

lemma checkItems (he : P.coding.expr e e') (ht : P.Tokens t t') :
    P.Follows deep lax Eq (checkItems e t) (checkItems e' t') := by
  cases P.lawful.form he with
  | literal value => cases value <;> first | exact .pure rfl | exact .fail (fun _ => rfl) ht.same
  | other h h' =>
    rw [checkItems_of_isOther h, checkItems_of_isOther h']
    exact .pure rfl
  | _ => exact .pure rfl

lemma checkFields (he : P.coding.expr e e') (ht : P.Tokens t t') :
    P.Follows deep lax Eq (checkFields e t) (checkFields e' t') := by
  cases P.lawful.form he with
  | literal value => exact .fail (fun _ => rfl) ht.same
  | other h h' =>
    rw [checkFields_of_isOther h, checkFields_of_isOther h']
    exact .pure rfl
  | _ => exact .pure rfl

lemma indexed (hg : g.Follows P h) (he : P.coding.expr e e')
    (ht : P.Tokens t t') : P.Follows deep True P.coding.expr (g.indexed e t) (h.indexed e' t') := by
  refine .bindLax checkIndex fun _ _ _ => .bindLax (checkItems he ht) fun _ _ _ =>
    .bindLax .rounds fun _ _ hn => .bindLax (.commaSeparated hg.expression' hn) fun l l' hl =>
    .bindLax (.expect _ _) fun _ _ _ => .pure ?_
  induction hl generalizing e e' with
  | nil => exact he
  | cons hi _ ih => exact ih (P.lawful.index he hi ht.place)

lemma fieldKey (hg : g.Follows P h) :
    P.Follows deep True P.coding.expr g.fieldKey h.fieldKey := by
  refine .bindLax (.accept? .identifier (.inl trivial)) fun o o' ho => ?_
  cases ho with
  | @some t t' ht =>
    dsimp only
    rw [← ht.lexeme]
    exact .pure (P.lawful.literal ht.place)
  | none =>
    refine .bindLax (.accept .atSign (.inl trivial)) fun x _ e => ?_
    subst e
    split
    · exact hg.operand
    · exact .bindLax .peek fun _ _ ht => .fail (fun _ => rfl) ht.same

lemma fieldOf (hg : g.Follows P h) (he : P.coding.expr e e')
    (ht : P.Tokens t t') : P.Follows deep True P.coding.expr (g.fieldOf e t) (h.fieldOf e' t') :=
  .bindLax (checkFields he ht) fun _ _ _ => .bindLax hg.fieldKey fun _ _ hk =>
    .pure (P.lawful.field he hk ht.place)

lemma suffixes (hg : g.Follows P h) : ∀ {n n' : Nat}, Follows.Rounds P n n' →
    ∀ {e e' : Expr}, P.coding.expr e e' → P.Follows deep True P.coding.expr
      (g.suffixes n e) (h.suffixes n' e')
  | 0, n', hn, _, e', _ => .exhausted (q := fun n => h.suffixes n e') hn rfl
  | n + 1, 0, hn, _, _, _ => absurd hn.1 (by omega)
  | n + 1, n' + 1, hn, e, e', he => by
    refine .bindLax (.accept? .leftParen (.inl trivial)) fun o o' ho => ?_
    cases ho with
    | some ht =>
      exact .bindLax hg.arguments fun _ _ hl => hg.suffixes hn.pred (P.lawful.call he hl ht.place)
    | none =>
      refine .bindLax (.accept? .leftBracket (.inl trivial)) fun o o' ho => ?_
      cases ho with
      | some ht => exact .bindLax (hg.indexed he ht) fun _ _ hi => hg.suffixes hn.pred hi
      | none =>
        refine .bindLax (.accept? .dot (.inl trivial)) fun o o' ho => ?_
        cases ho with
        | some ht => exact .bindLax (hg.fieldOf he ht) fun _ _ hi => hg.suffixes hn.pred hi
        | none => exact .pure he

lemma base (hg : g.Follows P h) :
    P.Follows deep True P.coding.expr g.base h.base := by
  refine .bindLax (.accept .dollar (.inl trivial)) fun x _ e => ?_
  subst e
  split
  · exact hg.nativeCall
  · exact hg.operand

lemma suffixed (hg : g.Follows P h) :
    P.Follows deep True P.coding.expr g.suffixed h.suffixed :=
  .bindLax hg.base fun _ _ he => .bindLax .rounds fun _ _ hn => hg.suffixes hn he

/-! ### Operators -/

lemma assignment (he : P.coding.expr e e') {u u'} (hu : P.coding.update u u') (ht : P.Tokens t t')
    (what) :
    P.Follows deep lax P.coding.expr (assignment e u t what)
      (assignment e' u' t' what) := by
  cases P.lawful.form he with
  | read hs =>
    unfold assignment
    dsimp only
    rw [← (P.lawful.slot_eq hs).2, ← (P.lawful.slot_eq hs).1]
    split
    · exact .fail (fun _ => rfl) ht.same
    · rename_i assignable
      exact .pure (P.lawful.assignVariable (by simpa using assignable) hs hu ht.place)
  | index hc hi => exact .pure (P.lawful.assignIndex hc hi hu ht.place)
  | field hc hi => exact .pure (P.lawful.assignField hc hi hu ht.place)
  | literal => exact .fail (fun _ => rfl) ht.same
  | other h h' =>
    rw [assignment_of_isOther h, assignment_of_isOther h']
    exact .fail (fun _ => rfl) ht.same

lemma prefixed (hg : g.Follows P h) :
    P.Follows deep True P.coding.expr g.prefixed h.prefixed := by
  have unary : P.Follows deep True P.coding.expr g.unary h.unary := hg.unary.weaken id
  refine .bindLax .peek fun t t' ht => ?_
  rw [← ht.kind]
  cases unaryOf? t.kind with
  | some op =>
    exact .bindLax .advance fun _ _ ho => .bindLax unary fun _ _ he => .pure (P.lawful.unary he ho.place)
  | none =>
    cases stepOf? t.kind with
    | some step =>
      exact .bindLax .advance fun _ _ ho => .bindLax unary fun _ _ he =>
        assignment he P.lawful.step ho step.2
    | none => exact hg.suffixed

lemma chain {level p q} (h : P.Follows deep True P.coding.expr p q) :
    ∀ {n n' : Nat}, Follows.Rounds P n n' →
      ∀ {e e' : Expr}, P.coding.expr e e' → P.Follows deep True P.coding.expr
        (Grammar.chain level p n e) (Grammar.chain level q n' e')
  | 0, n', hn, _, e', _ => .exhausted (q := fun n => Grammar.chain level q n e') hn rfl
  | n + 1, 0, hn, _, _, _ => absurd hn.1 (by omega)
  | n + 1, n' + 1, hn, e, e', he => by
    refine .bindLax .peek fun t t' ht => ?_
    rw [← ht.kind]
    cases level.lookup t.kind with
    | none => exact .pure he
    | some op =>
      exact .bindLax .advance fun _ _ ho => .bindLax h fun _ _ hr =>
        chain h hn.pred (P.lawful.join he hr ho.place)

lemma leveled (hg : g.Follows P h) : ∀ levels : List Level,
    P.Follows deep True P.coding.expr (g.leveled levels) (h.leveled levels)
  | [] => hg.prefixed
  | _ :: tighter =>
    .bindLax (hg.leveled tighter) fun _ _ he => .bindLax .rounds fun _ _ hn =>
      chain (hg.leveled tighter) hn he

lemma updateOf {kind} {update : Expr → Update} (hk : updateOf? kind = some update) {e e'}
    (he : P.coding.part e e') : P.coding.update (update e) (update e') := by
  unfold updateOf? at hk
  split at hk <;> cases hk
  · exact P.lawful.set he
  all_goals exact P.lawful.combine he

lemma assigned (hg : g.Follows P h) :
    P.Follows deep True P.coding.expr g.assigned h.assigned := by
  refine .bindLax (hg.leveled levels) fun _ _ he => .bindLax .peek fun t t' ht => ?_
  rw [← ht.kind]
  cases hu : updateOf? t.kind with
  | none => exact .pure he
  | some update =>
    exact .bindLax .advance fun _ _ ho => .bindLax hg.expression' fun _ _ hv =>
      assignment he (updateOf hu (P.lawful.boxed hv)) ho "assignment"

lemma conditional (hg : g.Follows P h) :
    P.Follows deep True P.coding.expr g.conditional h.conditional := by
  refine .bindLax hg.assigned fun _ _ he => .bindLax (.accept? .question (.inl trivial))
    fun o o' ho => ?_
  cases ho with
  | none => exact .pure he
  | some ht =>
    exact .bindLax hg.expression' fun _ _ ha => .bindLax (.expect _ _) fun _ _ _ =>
      .bindLax hg.expression' fun _ _ hb => .pure (P.lawful.ternary he (P.lawful.boxed ha)
        (P.lawful.boxed hb) ht.place)

end Follows

end Grammar

end DynScript

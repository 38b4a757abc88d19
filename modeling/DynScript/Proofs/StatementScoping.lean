import DynScript.Proofs.ExpressionScoping

/-!
# Statements and units are well scoped

The rules for statements and declarations, the grammar as a whole and compiled units.

Main declarations: `Grammar.sound_unrolled`, `scoped_of_compile`.
-/

namespace DynScript

open List ScopeTable
open Code (Bound Lands binders)

namespace Grammar

open Parse

variable {c : ParseContext} {g : Grammar} (hg : g.Sound c) {s u : ParseState}

/-! ### Declarations -/

section

include hg

lemma quiet_initialValue (name s) : (g.initialValue name).Gives c s (Quiet 0 0 s) :=
  (Quiet.start s).accept (by decide) (fun t h => (quiet_conditional hg t).mono fun _ _ => h.before)
    (.pure (Quiet.start s).literal)

omit hg in
lemma adds_declare {slot e place} (h : Adds [slot] 0 0 s e u) :
    Adds [slot] 0 0 s (Stmt.declare slot e place) u := by
  refine h.map (fun hb => ?_) (by simp [binders, Stmt.binders]) fun hl => ?_
  · simp only [Bound, Stmt.Bound]
    refine ⟨?_, hb⟩
    rw [visible_eq, h.slots]
    simp
  · simpa only [Lands, Stmt.Lands] using hl

lemma adds_varDeclaration (s) : g.varDeclaration.Gives c s fun a u =>
    ∃ slot e place, a = .declare slot e place ∧ Adds [slot] 0 0 s a u :=
  (Quiet.start s).expect (by decide) fun name t hn =>
    .bind (P := fun slot v => Adds [slot] 0 0 t () v) (fun _ _ => adds_of_declareAs) fun slot v hs =>
    .bind (quiet_initialValue hg name v) fun e _ he => he.boxed.expect (by decide) fun _ _ he =>
    .pure ⟨slot, _, _, rfl, adds_declare (hn.adds.before (hs.before he.adds))⟩

lemma adds_letDeclaration (s) : g.letDeclaration.Gives c s fun a u =>
    ∃ slot, Adds [slot] 0 0 s a u ∧ a.target? = none := by
  refine (Quiet.start s).expect (by decide) fun name t hn => hn.expect (by decide) fun _ t hn =>
    .bind (quiet_conditional hg t) fun e v he => .bind (P := fun slot w => Adds [slot] 0 0 v () w)
      (fun _ _ => adds_of_declareAs) fun slot w hs => (Quiet.start w).expect (by decide) fun _ u hq =>
        .pure ⟨slot, adds_declare ?_, rfl⟩
  have hall := ((hn.before he).adds.after hs).after hq.adds
  split
  · exact hall.map (by simp [Bound, Expr.Bound]) (by simp [binders, Expr.binders])
      (by simp [Lands, Expr.Lands])
  · exact hall

lemma adds_functionDeclaration (s) : g.functionDeclaration.Gives c s fun a u =>
    ∃ slot, Adds [slot] 0 0 s a u ∧ a.target? = none := by
  refine (Quiet.start s).expect (by decide) fun name t hn =>
    .bind (P := fun slot v => Adds [slot] 0 0 t () v) (fun _ _ => adds_of_declareAs) fun slot v hs =>
    .bind (P := Quiet 0 0 v) ?_ fun f u hf =>
      .pure ⟨slot, adds_declare (hn.adds.before (hs.before hf.adds)), rfl⟩
  refine .inScope (gives_functionHead fun exit params t hr hslots hlabels =>
    .expect fun brace w hb hw => .bind (quiet_block hg brace w) fun body u h => .pure ?_)
  have h := (hw.quiet (.opening hb)).before h
  exact quiet_of_functionScope name.lexeme none name.location
    ((hr.andThen h.toReads).map And.right rfl And.right)
    (by rw [h.current, hslots]; rfl) (by rw [h.current, hlabels]; rfl)

end

variable {name : String} {entry : LabelEntry}

lemma places_of_place {t v : ScopeTable} {location} (h : t.place name location = (.ok entry, v)) :
    entry.label.name = name ∧ v.current.slots = t.current.slots ∧
    Places [entry.label] t.current v.current := by
  unfold place at h
  split at h
  · rename_i hn
    obtain ⟨-, rfl, rfl⟩ := ok_of_defineLabel h
    refine ⟨rfl, by simp [Scope.addLabel], fun other e he => ?_⟩
    simp only [current_setCurrent, Scope.label?, Scope.addLabel,
      find?_append] at he
    cases hf : t.current.labels.find? (·.label.name = other) with
    | some f =>
      obtain rfl : f = e := by simpa [hf] using he
      refine ⟨fun hp => .inr ⟨f, hf, hp, rfl⟩, fun _ => ⟨hf, ?_⟩⟩
      simp only [map_cons, map_nil, mem_singleton]
      rintro rfl
      simp [Scope.label?, hf] at hn
    | none =>
      simp only [hf, Option.none_or, find?_singleton] at he
      split at he <;> cases he
      exact ⟨fun _ => .inl (by simp), fun hp => by simp at hp⟩
  · rename_i old ho
    have hname : old.label.name = name := by
      simpa using find?_some ho
    split at h <;> cases h
    refine ⟨hname, by simp, fun other e he => ?_⟩
    rw [current_setCurrent, label?_map _ _ (by intro e; split <;> simp_all),
      Option.map_eq_some_iff] at he
    obtain ⟨f, hf, rfl⟩ := he
    split
    · exact ⟨fun _ => .inl (by simp), fun hp => by simp at hp⟩
    · rename_i hne
      refine ⟨fun hp => .inr ⟨f, hf, hp, rfl⟩, fun _ => ⟨hf, ?_⟩⟩
      simp only [map_cons, map_nil, mem_singleton]
      rintro rfl
      rw [hname, ho] at hf
      cases hf
      exact hne rfl

lemma unplaced_of_place {t v : ScopeTable} {location} (h : t.place name location = (.ok entry, v))
    {e} (he : t.current.label? name = some e) : e.placed = false := by
  unfold place at h
  rw [he] at h
  dsimp only at h
  split at h
  · cases h
  · exact Bool.eq_false_iff.2 ‹_›

lemma declares_labelDeclaration {keyword} {t} (ht : Takes s keyword t)
    (hk : keyword.kind = .kwLabel) : labelDeclaration.Gives c t fun a u => Declares s [a] u := by
  refine .expect fun name v hnk hn => .expect fun x w hxk hx => ?_
  intro a u h
  have ho := ht.onward.trans (hn.onward.trans (hx.onward.trans (onward_of_ok h)))
  simp only [placeLabel, run_bind, ParseResult.andThen_eq_ok] at h
  obtain ⟨_, _, ⟨entry, _, he, hl⟩, h⟩ := h
  cases hl
  cases h
  obtain ⟨scopes, hp, rfl⟩ := ok_of_resolve he
  rw [hx.scopes, hn.scopes, ht.scopes] at hp
  obtain ⟨hname, hslots, hplaces⟩ := places_of_place hp
  have hrest : s.rest = [keyword, name, x] ++ w.rest := by
    rw [ht.rest, hn.rest, hx.rest]
    rfl
  refine ⟨⟨ho, by simp [Bound, Stmt.Bound], ⟨[], by simpa using hslots, ?_⟩,
    by simp [Lands, Stmt.Lands], fun _ => ⟨[keyword, name, x], hrest, fun d r => ?_⟩⟩,
    fun _ => ?_, fun _ => hplaces, fun _ x hm e hl => ?_, fun _ _ => by simp [Stmt.targets, Stmt.target?]⟩
  · simp only [binders, flatMap_cons, Stmt.binders, flatMap_nil, append_nil,
      map_nil]
    exact Fresh.nil
  · simp [labelsAhead, hk, hnk, hxk]
  · refine ⟨[keyword, name, x], hrest, fun r => ?_⟩
    simp [labelsAhead, hk, hnk, hxk, Stmt.targets, Stmt.target?, hname, Option.filter_some]
  · obtain rfl : x = entry.label := by simpa [Stmt.targets, Stmt.target?] using hm
    exact unplaced_of_place hp (hname ▸ hl)

/-! ### Statements -/

/-- A statement has been read that places no label. -/
abbrev Plainly (s : ParseState) (a : Stmt) (u : ParseState) : Prop :=
  Quiet 0 0 s a u ∧ a.target? = none

lemma quiet_jump {value} {target : Label} {place} (h : Quiet 0 0 s value u)
    (ht : u.scopes.Target target.id) : Plainly s (Stmt.jump target value place) u := by
  refine ⟨h.map (fun hb => ?_) ?_ fun hl => ?_, rfl⟩
  · simp only [Bound, Stmt.Bound]
    exact hb
  · cases value <;> simp [binders, Stmt.binders]
  · simp only [Lands, Stmt.Lands]
    exact ⟨ht, hl⟩

lemma quiet_jumpTo {message value place} {t} (h : Quiet 0 0 s value t)
    (he : t.scopes.lookupLabel name = some entry) : (do
      let _ ← expect .semicolon message
      return Stmt.jump entry.label value place : Parse Stmt).Gives c t (Plainly s) :=
  .expect fun _ _ hk ht => .pure (quiet_jump (h.takes (by decide) hk ht)
    (ht.scopes ▸ reaches_of_labelIn he))

lemma quiet_loopJump (kind missing message keyword s) :
    (loopJump kind missing message keyword).Gives c s (Plainly s) := by
  refine .seen rfl ?_
  split
  · exact .fail
  · exact quiet_jumpTo (Quiet.start s).nothing ‹_›

lemma quiet_gotoStatement (s) : gotoStatement.Gives c s (Plainly s) := by
  refine (Quiet.start s).expect (by decide) fun name t h => .seen rfl ?_
  split
  · split
    · exact quiet_jumpTo h.nothing ‹_›
    · exact .fail
  · exact .fail

/-- A hidden variable counts as code that binds it. -/
instance : Code Slot where
  Bound _ _ := True
  binders slot := [slot]
  Lands _ _ := True
  bound_mono _ := id
  lands_mono _ := id

lemma quiet_hiddenSlot {i : Nat} (name place s) :
    (hiddenSlot name place).Gives c s (Quiet i i s) := by
  intro slot u h
  have ho := onward_of_ok h
  cases h
  exact ⟨⟨ho, trivial, ⟨[], by simp [current],
    Fresh.single (Nat.lt_succ_self _)⟩, fun _ => trivial, fun _ => ⟨[], rfl, .nil⟩⟩, rfl⟩

section

include hg

lemma quiet_statement (s) : g.statement.Gives c s (Quiet 0 0 s) :=
  (hg.statement s).mono fun _ _ => And.left

lemma quiet_expressionStatement (s) : g.expressionStatement.Gives c s fun a u =>
    (∃ e place, a = .expression e place) ∧ Plainly s a u :=
  .bind (quiet_conditional hg s) fun e _ h => h.expect (by decide) fun _ _ h => .pure
    ⟨⟨e, _, rfl⟩, h.map (by simp [Bound, Stmt.Bound]) (by simp [binders, Stmt.binders])
      (by simp [Lands, Stmt.Lands]), rfl⟩

lemma quiet_printStatement (keyword s) : (g.printStatement keyword).Gives c s (Plainly s) :=
  .bind (quiet_conditional hg s) fun _ _ h => h.expect (by decide) fun _ _ h => .pure
    ⟨h.map (by simp [Bound, Stmt.Bound]) (by simp [binders, Stmt.binders])
      (by simp [Lands, Stmt.Lands]), rfl⟩

lemma quiet_elseBranch (s) : g.elseBranch.Gives c s (Quiet 0 0 s) :=
  (Quiet.start s).accept (by decide) (fun t h => .map ((quiet_statement hg t).mono fun _ _ ha =>
    h.before ha.just)) (.pure (Quiet.start s).nothing)

lemma quiet_ifStatement (keyword s) : (g.ifStatement keyword).Gives c s (Plainly s) := by
  refine (Quiet.start s).expect (by decide) fun _ t h => .bind (quiet_conditional hg t) fun _ _ he =>
    (h.before he).expect (by decide) fun _ t h => h.bind (quiet_statement hg t) fun _ t h =>
    h.bind (quiet_elseBranch hg t) fun second _ h => .pure ⟨h.map (fun hb => ?_) ?_ fun hl => ?_, rfl⟩
  · simpa only [Bound, Stmt.Bound, and_assoc] using hb
  · cases second <;> simp [binders, Stmt.binders]
  · simpa only [Lands, Stmt.Lands, and_assoc] using hl

lemma quiet_returnValue (keyword s) : (g.returnValue keyword).Gives c s (Quiet 0 0 s) :=
  .check (.pure (Quiet.start s).literal) (quiet_conditional hg s)

lemma quiet_returnStatement (keyword s) : (g.returnStatement keyword).Gives c s (Plainly s) := by
  refine .bind (quiet_returnValue hg keyword s) fun value t h => .seen rfl ?_
  split
  · exact .fail
  · exact quiet_jumpTo h.boxed.just ‹_›

/-! ### Switches -/

lemma quiet_cases : ∀ n s, (g.cases n).Gives c s fun l u => Quiet 0 0 s l u ∧ l ≠ []
  | 0, _ => .stop _
  | n + 1, s => .bind (quiet_conditional hg s) fun _ _ h => h.expect (by decide) fun _ t h =>
    h.bind (quiet_statement hg t) fun _ _ h => h.accept (by decide)
      (fun t h => .bind (quiet_cases n t) fun _ _ hl => .pure ⟨(h.andThen hl.1).cons, cons_ne_nil _ _⟩)
      (.pure ⟨h.one, cons_ne_nil _ _⟩)

lemma quiet_defaultCase (s) : g.defaultCase.Gives c s (Quiet 0 0 s) :=
  (Quiet.start s).accept (by decide) (fun _ h => h.expect (by decide) fun _ t h =>
    .map ((quiet_statement hg t).mono fun _ _ ha => h.before ha.just)) (.pure (Quiet.start s).nothing)

end

section

variable (subject : Slot) {cases : List (Expr × Stmt)} {otherwise : Option Stmt}

lemma bound_switchChain {V} (hs : subject ∈ V) (h : Bound V (cases, otherwise)) :
    Bound V (switchChain subject cases otherwise) := by
  induction cases with
  | nil => exact h.2
  | cons f rest ih =>
    rintro a ⟨⟩
    have hf := h.1 f mem_cons_self
    have hr := ih ⟨fun x hx => h.1 x (mem_cons_of_mem _ hx), h.2⟩
    simp only [Bound, Stmt.Bound, Expr.Bound]
    exact ⟨⟨hs, hf.1⟩, hf.2, hr⟩

lemma lands_switchChain {T : Nat → Prop} (h : Lands T (cases, otherwise)) :
    Lands T (switchChain subject cases otherwise) := by
  induction cases with
  | nil => exact h.2
  | cons f rest ih =>
    rintro a ⟨⟩
    have hf := h.1 f mem_cons_self
    have hr := ih ⟨fun x hx => h.1 x (mem_cons_of_mem _ hx), h.2⟩
    simp only [Lands, Stmt.Lands, Expr.Lands]
    exact ⟨⟨trivial, hf.1⟩, hf.2, hr⟩

lemma binders_switchChain (cases otherwise) :
    binders (switchChain subject cases otherwise) = binders (cases, otherwise) := by
  induction cases with
  | nil => rfl
  | cons f rest ih =>
    have h : ∀ (o : Option Stmt) (e : Expr) (a : Stmt) (p : Location),
        (Stmt.branch e a o p).binders = e.binders ++ a.binders ++ binders o := by
      intro o e a p
      cases o <;> simp [Stmt.binders, binders]
    simp only [switchChain, binders, Option.toList_some, flatMap_cons, flatMap_nil,
      append_nil, h, Expr.binders, nil_append, append_assoc]
    congr 2

end

/-- The parts of a switch, and the hidden slot of the value that it compares with. -/
structure Switch where
  slot : Slot
  subject : Expr
  cases : List (Expr × Stmt)
  otherwise : Option Stmt
  place : Location

/-- What the parser makes of a switch. -/
def Switch.stmt (w : Switch) : Stmt :=
  .block (.mk (.declare w.slot w.subject.boxed w.place ::
    (switchChain w.slot w.cases w.otherwise).toList) [w.slot] w.place)

/-- The grammar reads the cases of a switch behind the first keyword, in their order: a test, a colon and a
body, and what follows the keyword of the next case. -/
inductive ReadsCases (g : Grammar) (c : ParseContext) :
    ParseState → List (Expr × Stmt) → ParseState → Prop where
  | last {s t t' u} {test} {x : Token} {body}
    (ht : g.conditional.run c s = .ok test t) (hx : x.kind = .colon) (colon : Takes t x t')
    (hb : g.statement.run c t' = .ok body u) : ReadsCases g c s [(test, body)] u
  | next {s t t' u u' v} {test} {x y : Token} {body} {l}
    (ht : g.conditional.run c s = .ok test t) (hx : x.kind = .colon) (colon : Takes t x t')
    (hb : g.statement.run c t' = .ok body u) (hy : y.kind = .kwCase) (keyword : Takes u y u')
    (hl : ReadsCases g c u' l v) : ReadsCases g c s ((test, body) :: l) v

/-- The grammar reads the parts of a switch behind its keyword from the left to the right: the subject in
parentheses, and in braces the cases and the default. -/
inductive ReadsSwitch (g : Grammar) (c : ParseContext) : ParseState → Switch → ParseState → Prop where
  | mk {s s₁ s₂ s₃ s₄ s₅ s₆ s₇ s₈ u} {l r b k e : Token} {w : Switch}
    (hl : l.kind = .leftParen) (h₁ : Takes s l s₁) (subject : g.conditional.run c s₁ = .ok w.subject s₂)
    (hr : r.kind = .rightParen) (h₂ : Takes s₂ r s₃) (hb : b.kind = .leftBrace) (h₃ : Takes s₃ b s₄)
    (hk : k.kind = .kwCase) (h₄ : Takes s₄ k s₅)
    (slot : (hiddenSlot "switch" w.place).run c s₅ = .ok w.slot s₆) (cases : g.ReadsCases c s₆ w.cases s₇)
    (otherwise : g.defaultCase.run c s₇ = .ok w.otherwise s₈) (he : e.kind = .rightBrace)
    (h₅ : Takes s₈ e u) : ReadsSwitch g c s w u

omit hg in
lemma reads_cases : ∀ n s, (g.cases n).Gives c s (g.ReadsCases c s)
  | 0, _ => .stop _
  | n + 1, s => .bind (.self _ s) fun _ _ ht => .expect fun _ t hx colon => .bind (.self _ t) fun _ _ hb =>
    .accept (fun _ u hy keyword => .bind (reads_cases n u) fun _ _ hl =>
      .pure (.next ht hx colon hb hy keyword hl)) (.pure (.last ht hx colon hb))

include hg in
lemma exists_switch (keyword) (s) : (g.switchStatement keyword).Gives c s
    fun a u => ∃ w : Switch, a = w.stmt ∧ w.place = keyword.location ∧ g.ReadsSwitch c s w u ∧
      w.cases ≠ [] ∧ Quiet 0 0 s (((w.subject, w.slot), w.cases), w.otherwise) u :=
  .expect fun _ t hl h₁ => .bind (quiet_conditional hg t).run fun subject _ ⟨r₁, hs⟩ =>
    .expect fun _ _ hr h₂ => .expect fun _ _ hb h₃ => .expect fun _ t hk h₄ =>
    .bind (quiet_hiddenSlot "switch" keyword.location t).run fun slot t ⟨r₂, hh⟩ => .seen rfl <|
    .bind (quiet_cases hg _ t).run fun cases t ⟨r₃, hc⟩ =>
    .bind (quiet_defaultCase hg t).run fun otherwise _ ⟨r₄, ho⟩ => .expect fun _ _ he h₅ =>
      have head := (((Quiet.start s).takes (by decide) hl h₁).before hs).takes (by decide) hr h₂
      have cases' := (((head.after (h₃.quiet (.opening hb))).takes (by decide) hk h₄).andThen hh).andThen
        (hc.1.deeper 1)
      .pure ⟨⟨slot, subject, cases, otherwise, keyword.location⟩, rfl, rfl,
        .mk hl h₁ r₁ hr h₂ hb h₃ hk h₄ r₂ (reads_cases _ _ _ _ r₃) r₄ he h₅, hc.2,
        (cases'.andThen (ho.deeper 1)).after (h₅.quiet (.closing he))⟩

include hg in
lemma quiet_switchStatement (keyword s) : (g.switchStatement keyword).Gives c s (Plainly s) := by
  refine (exists_switch hg keyword s).mono ?_
  rintro _ u ⟨⟨slot, subject, cases, otherwise, place⟩, rfl, -, -, -, h⟩
  refine ⟨h.rebind (fun hb => ?_) ?_ fun hl => ?_, rfl⟩
  · obtain ⟨⟨⟨hs, -⟩, hb⟩, ho⟩ := hb
    have hsub : u.scopes.visible ⊆ [slot] ++ u.scopes.visible := subset_append_right _ _
    have hchain := bound_switchChain slot mem_cons_self
      (Code.bound_mono hsub ⟨hb, ho⟩)
    simp only [Switch.stmt, Bound, Stmt.Bound, Block.Bound]
    intro a ha
    rcases mem_cons.1 ha with rfl | ha
    · simp only [Stmt.Bound, Expr.bound_boxed]
      exact ⟨mem_cons_self, Expr.Bound.mono hsub hs⟩
    · exact hchain a (Option.mem_toList.1 ha)
  · have hchain := binders_switchChain slot cases otherwise
    simp only [Switch.stmt, binders, Stmt.binders, Block.binders, flatMap_cons,
      Expr.binders_boxed] at hchain ⊢
    rw [hchain]
    simp only [append_assoc]
    exact perm_middle
  · obtain ⟨⟨⟨hs, -⟩, hl⟩, ho⟩ := hl
    have hchain := lands_switchChain slot (T := u.scopes.Target) ⟨hl, ho⟩
    simp only [Switch.stmt, Lands, Stmt.Lands, Block.Lands]
    intro a ha
    rcases mem_cons.1 ha with rfl | ha
    · simp only [Stmt.Lands, Expr.lands_boxed]
      exact hs
    · exact (hchain a (Option.mem_toList.1 ha)).mono fun _ => Or.inr

/-! ### Loops -/

lemma lands_loopScope {exit next t}
    (ho : ParseState.Onward { s with scopes := s.scopes.enter .loop } t)
    (hl : t.scopes.current.labels =
      [{ label := exit, placed := true }, { label := next, placed := true }]) {id : Nat}
    (h : t.scopes.Target id) : id = exit.id ∨ id = next.id ∨ s.scopes.Target id := by
  rw [ScopeTable.Target, chain_eq, ho.scopes.around, ho.scopes.linked] at h
  rcases h with ⟨name, e, hn, rfl⟩ | ⟨-, h⟩
  · have := mem_of_find?_eq_some hn
    simp only [hl, mem_cons, not_mem_nil, or_false] at this
    rcases this with rfl | rfl
    · exact .inl rfl
    · exact .inr (.inl rfl)
  · rw [ScopeTable.Target, chain_eq, ← cons_append, ← stack_eq]
    exact .inr (.inr h)

section

variable {statements : List Stmt} {slots : List Slot} {place : Location}

lemma bound_block {V} : (Stmt.block (.mk statements slots place)).Bound V ↔
    ∀ a ∈ statements, a.Bound (slots ++ V) := by
  simp only [Stmt.Bound, Block.Bound]

lemma lands_block {T : Nat → Prop} : (Stmt.block (.mk statements slots place)).Lands T ↔
    ∀ a ∈ statements, a.Lands fun id => Stmt.LabelAmong statements id ∨ T id := by
  simp only [Stmt.Lands, Block.Lands]

variable {condition : Expr} {body : Stmt} {step : Option Expr} {exit next : Label}

lemma bound_loop {V} : (Stmt.loop condition body step exit next place).Bound V ↔
    Bound V ((condition, step), body) := by
  simp only [Stmt.Bound, Bound, and_assoc]
  exact and_congr_right fun _ => and_comm

lemma binders_loop : (Stmt.loop condition body step exit next place).binders =
    binders ((condition, step), body) := by
  cases step <;> simp [Stmt.binders, binders]

end

lemma gives_loopHead {message} {α : Type} {f : Label → Label → Parse α}
    {Q : α → ParseState → Prop}
    (hf : ∀ exit next u, Reads 0 0 s () u → u.scopes.current.slots = s.scopes.current.slots →
      u.scopes.current.labels = s.scopes.current.labels ++
        [{ label := exit, placed := true }, { label := next, placed := true }] →
      (f exit next).Gives c u Q) :
    (do
      let exit ← reserve .breakLoop
      let next ← reserve .continueLoop
      let _ ← expect .leftParen message
      f exit next).Gives c s Q := by
  refine .bind (fun _ _ => reads_of_reserve (i := 0)) fun exit _ ⟨hr₁, hc₁⟩ =>
    .bind (fun _ _ => reads_of_reserve (i := 0)) fun next v ⟨hr₂, hc₂⟩ =>
    (Quiet.start v).expect (by decide) fun _ u hq => hf exit next u
      ((hr₁.andThen (hr₂.andThen hq.toReads)).map (fun _ => trivial) rfl (fun _ => trivial)) ?_ ?_
  · rw [hq.current, hc₂, hc₁]
    rfl
  · rw [hq.current, hc₂, hc₁]
    simp [Scope.addLabel]

section

include hg

lemma quiet_whileStatement (keyword s) : (g.whileStatement keyword).Gives c s (Plainly s) := by
  refine .inScope (gives_loopHead fun exit next v hr hslots hlabels =>
    .bind (quiet_conditional hg v) fun _ _ h => h.expect (by decide) fun _ t h =>
    h.bind (quiet_statement hg t) fun _ t h => .pure ?_)
  have hall := (hr.andThen h.toReads).map And.right rfl And.right
  have hslots : t.scopes.current.slots = [] := by rw [h.current, hslots]; rfl
  have hlabels := h.current ▸ hlabels
  refine ⟨hall.leave rfl (fun hb => ?_) ?_ fun _ hl => ?_, rfl⟩
  · rw [hslots] at hb
    simp only [Bound, Stmt.Bound]
    exact ⟨hb.1, hb.2, by simp⟩
  · simp [binders, Stmt.binders, hslots]
  · simp only [Lands, Stmt.Lands]
    exact ⟨hl.1, Stmt.Lands.mono (fun id => lands_loopScope hall.onward hlabels) hl.2, by simp⟩

lemma reads_forInitial (s) : g.forInitial.Gives c s fun o u =>
    Reads 0 0 s o u ∧ u.scopes.current.labels = s.scopes.current.labels ∧
    (o = none → u.scopes.current.slots = s.scopes.current.slots) ∧
    ∀ T U, Lands T o → Lands U o := by
  refine (Quiet.start s).accept (by decide) (fun _ h => .pure ?_) ((Quiet.start s).accept (by decide)
    (fun t h => .bind (adds_varDeclaration hg t) ?_) (.bind (quiet_expressionStatement hg s) ?_))
  · exact ⟨h.nothing.toReads, by rw [h.current], fun _ => by rw [h.current], by simp [Lands]⟩
  · rintro _ _ ⟨slot, e, place, rfl, ha⟩
    have hall := h.adds.before ha
    refine .pure ⟨hall.toReads.map (by simp [Bound]) (by simp [binders])
      (by simp [Lands]), hall.labels, by simp, fun T U h => ?_⟩
    simpa [Lands, Stmt.Lands] using h
  · rintro _ _ ⟨⟨e, place, rfl⟩, ha, -⟩
    refine .pure ⟨ha.just.toReads, by rw [ha.current], by simp, fun T U h => ?_⟩
    simpa [Lands, Stmt.Lands] using h

lemma quiet_forCondition (keyword s) : (g.forCondition keyword).Gives c s (Quiet 0 0 s) :=
  .check (.pure (Quiet.start s).literal) (quiet_conditional hg s)

lemma quiet_forStep (s) : g.forStep.Gives c s (Quiet 0 0 s) :=
  .check (.pure (Quiet.start s).nothing) (.map ((quiet_conditional hg s).mono fun _ _ => Quiet.just))

lemma quiet_forStatement (keyword s) : (g.forStatement keyword).Gives c s (Plainly s) := by
  refine .inScope (gives_loopHead fun exit next v hr hslots hlabels =>
    .bind (reads_forInitial hg v) fun initial t ⟨hi, hil, his, hit⟩ =>
    .bind (quiet_forCondition hg keyword t) fun condition _ h => h.expect (by decide) fun _ t h =>
    h.bind (quiet_forStep hg t) fun step _ h => h.expect (by decide) fun _ t h =>
    h.bind (quiet_statement hg t) fun body t hl => .seen rfl (.pure ?_))
  have hall := (hr.andThen (hi.andThen hl.toReads)).map And.right rfl And.right
  have hlabels := hl.current ▸ hil ▸ hlabels
  have hland : Lands t.scopes.Target ((condition, step), body) →
      (Stmt.loop condition body step exit next keyword.location).Lands s.scopes.Target := by
    rintro ⟨⟨hc, hs⟩, hb⟩
    simp only [Stmt.Lands]
    exact ⟨hc, hb.mono fun id => lands_loopScope hall.onward hlabels, hs⟩
  cases initial with
  | none =>
    have hslots : t.scopes.current.slots = [] := by rw [hl.current, his rfl, hslots]; rfl
    refine ⟨hall.leave rfl (fun hb => ?_) ?_ fun _ hl => hland hl.2, rfl⟩
    · rw [hslots] at hb
      exact bound_loop.2 hb.2
    · rw [hslots]
      exact binders_loop
  | some first =>
    refine ⟨hall.leave rfl (fun hb => ?_) ?_ fun _ hl => ?_, rfl⟩
    · refine bound_block.2 fun a ha => ?_
      simp only [mem_cons, not_mem_nil, or_false] at ha
      rcases ha with rfl | rfl
      · exact hb.1 _ rfl
      · exact bound_loop.2 hb.2
    · simp only [binders, withInitial, Stmt.binders, Block.binders, flatMap_cons,
        binders_loop, flatMap_nil, Option.toList_some, append_nil]
    · refine lands_block.2 fun a ha => ?_
      simp only [mem_cons, not_mem_nil, or_false] at ha
      rcases ha with rfl | rfl
      · exact hit _ _ hl.1 _ rfl
      · exact (hland hl.2).mono fun _ => Or.inr

/-! ### The whole grammar -/

lemma quiet_statementRule (s) : g.statementRule.Gives c s (Plainly s) := by
  refine .seen rfl ?_
  split
  case h_11 => exact (quiet_expressionStatement hg s).mono fun _ _ => And.right
  case h_1 hk =>
    refine .bind (fun _ _ => takes_of_advance hg.eof (by rw [hk]; decide)) ?_
    rintro _ t ⟨rfl, ht⟩
    refine .bind (quiet_block hg _ t) fun _ _ hb => .pure
      ⟨((ht.quiet (.opening hk)).before hb).map ?_ ?_ ?_, rfl⟩
    · simp [Bound, Stmt.Bound]
    · simp [binders, Stmt.binders]
    · simp [Lands, Stmt.Lands]
  all_goals
    rename_i hk
    refine (Quiet.start s).advance hg.eof (by rw [hk]; decide) fun _ t h =>
      Gives.mono (P := Plainly t) ?_ fun _ _ ha => ⟨h.before ha.1, ha.2⟩
  · exact quiet_ifStatement hg _ t
  · exact quiet_switchStatement hg _ t
  · exact quiet_forStatement hg _ t
  · exact quiet_whileStatement hg _ t
  · exact quiet_loopJump _ _ _ _ t
  · exact quiet_loopJump _ _ _ _ t
  · exact quiet_gotoStatement t
  · exact quiet_returnStatement hg _ t
  · exact quiet_printStatement hg _ t

omit hg in
lemma declares_recovering {p : Parse (Option Stmt)}
    (hp : p.Gives c s fun o u => Declares s o.toList u) :
    (recovering p).Gives c s fun o u => Declares s o.toList u := by
  intro o u h
  have ho := onward_of_ok h
  rw [run_recovering] at h
  split at h
  · -- the error is on record now, so nothing is claimed of jumps
    rename_i e t ht
    unfold recovery at h
    split at h <;> cases h
    refine .of_error ho fun he => ?_
    have := congrArg List.length he
    have hlen := (p.onward c s).errors.length_le
    rw [ht] at hlen
    simp only [recovered, resumed, unwind, ParseResult.state, length_append,
      length_singleton] at this hlen
    omega
  · exact hp _ _ h

lemma declares_declarationRule (s) :
    g.declarationRule.Gives c s fun o u => Declares s o.toList u := by
  refine declares_recovering (.seen rfl ?_)
  split
  case h_6 =>
    exact .map ((quiet_statementRule hg s).mono fun _ _ ha => .of_adds ha.1.adds ha.2)
  case h_4 hk =>
    refine .bind (fun _ _ => takes_of_advance hg.eof (by rw [hk]; decide)) ?_
    rintro _ t ⟨rfl, ht⟩
    exact .map (declares_labelDeclaration ht hk)
  all_goals
    rename_i hk
    refine (Quiet.start s).advance hg.eof (by rw [hk]; decide) fun _ t h => ?_
  · exact .map ((adds_varDeclaration hg t).mono fun _ _ ⟨_, _, _, ha, hd⟩ =>
      .of_adds (h.adds.before hd) (ha ▸ rfl))
  · exact .map ((adds_letDeclaration hg t).mono fun _ _ ⟨_, hd, ht⟩ => .of_adds (h.adds.before hd) ht)
  · exact .map ((adds_functionDeclaration hg t).mono fun _ _ ⟨_, hd, ht⟩ =>
      .of_adds (h.adds.before hd) ht)
  · exact .fail

end

/-- **The grammar gives well-scoped code**, however deep it is unrolled. -/
theorem sound_unrolled (hc : c.eof.kind = .endOfInput) : ∀ n : Nat, (unrolled n).Sound c
  | 0 => ⟨hc, fun _ => .stop _, fun _ => .stop _, fun _ => .stop _, fun _ => .stop _⟩
  | n + 1 =>
    have hg := sound_unrolled hc n
    ⟨hc, quiet_prefixed hg, quiet_conditional hg, quiet_statementRule hg, declares_declarationRule hg⟩

lemma declares_unit (hg : g.Sound c) :
    ∀ n s, (g.unit n).Gives c s fun l u => Declares s l u ∧ u.rest = []
  | 0, _ => .stop _
  | n + 1, s => by
    refine .seen rfl ?_
    split
    · exact .pure ⟨.nil s, by simpa using ‹s.rest.isEmpty = true›⟩
    · exact .bind (hg.declaration s) fun _ t ho => .bind (declares_unit hg n t) fun _ _ hl =>
        .pure ⟨ho.append hl.1, hl.2⟩

end Grammar

/-! ### Units -/

lemma Scan.exists_tokens (file l start) :
    ∃ body eof, (Scan.ofLexemes file start l).tokens = body ++ [eof] ∧
      eof.kind = .endOfInput := by
  induction l generalizing start with
  | nil => exact ⟨[], _, rfl, rfl⟩
  | cons x l ih =>
    obtain ⟨body, eof, ht, hk⟩ := ih (start.after x.text)
    exact ⟨(x.token? file start).toList ++ body, eof, by simp [Scan.ofLexemes, ht], hk⟩

lemma Scope.slots_link (s : Scope) (slot) : (s.link slot).slots ⊆ s.slots ++ [slot] := by
  unfold Scope.link
  split
  · intro x hx
    obtain ⟨y, hy, rfl⟩ := mem_map.1 hx
    split
    · simp
    · simp [hy]
  · exact fun x hx => hx

lemma Scope.slots_foldl_link (slots : List Slot) (s) :
    (slots.foldl Scope.link s).slots ⊆ s.slots ++ slots := by
  induction slots generalizing s with
  | nil => simp
  | cons slot slots ih =>
    intro x hx
    rcases mem_append.1 (ih _ hx) with h | h
    · rw [append_cons]
      exact mem_append_left _ (s.slots_link slot h)
    · simp [h]

lemma Scope.labels_foldl_link (slots : List Slot) (s) :
    (slots.foldl Scope.link s).labels = s.labels := by
  induction slots generalizing s with
  | nil => rfl
  | cons slot slots ih =>
    rw [foldl_cons, ih, Scope.link]
    split <;> rfl

/-- A unit is well scoped: its variables are bound in it or linked, each slot is bound once, with a
number from `lo` on and below `hi`, and without errors its jumps land in it. -/
structure CompiledUnit.Scoped (u : CompiledUnit) (linked : List Slot) (lo hi : Nat) : Prop where
  bound : u.program.body.Bound linked
  fresh : Fresh lo hi (u.program.body.binders.map (·.id))
  lands : u.errors = [] → u.program.body.Lands fun _ => False
  exported : u.exported = u.program.body.slots

section

open Parse

variable {linked : List Slot} {supply : Supply} {u : CompiledUnit}

lemma scoped_of_parseUnit {c : ParseContext} (hc : c.eof.kind = .endOfInput) {n : Nat}
    {s t : ParseState} {l place} (hs : ∃ roots : ScopeTable, s.scopes = roots.reset linked)
    (h : (parseUnit n).run c s = .ok l t) :
    (Block.mk l t.scopes.globals.slots place).Bound linked ∧
    Fresh s.scopes.nextSlot t.scopes.nextSlot
      ((Block.mk l t.scopes.globals.slots place).binders.map (·.id)) ∧
    (t.errors = s.errors → (Block.mk l t.scopes.globals.slots place).Lands fun _ => False) := by
  obtain ⟨roots, hs⟩ := hs
  simp only [parseUnit, run_bind, run_rounds, ParseResult.andThen_eq_ok, ParseResult.andThen_ok] at h
  obtain ⟨⟨⟩, v, hv, h⟩ := h
  have hcur : s.scopes.current = { kind := .global } := by rw [hs]; rfl
  obtain ⟨hr, hrest, hw⟩ := reads_of_announceLabels (by rw [hcur]) hv
  obtain ⟨hd, hend⟩ := Grammar.declares_unit (Grammar.sound_unrolled hc n) _ _ _ _ h
  have hall := (hr.andThen hd.toReads).map (c := l) And.right rfl And.right
  have hin : t.scopes.inner = [] := by
    have := hall.onward.scopes.around
    rw [hs] at this
    simpa [around, stack, reset] using congrArg List.length this
  have hglob : t.scopes.globals = t.scopes.current := by simp [current, hin]
  have hlink : t.scopes.linked = linked.foldl Scope.link { kind := .linked } := by
    rw [hall.onward.scopes.linked, hs]
    rfl
  have hchain : t.scopes.chain = [t.scopes.current, t.scopes.linked] := by
    simp [chain, hin, hglob]
  obtain ⟨new, hn, hf⟩ := hall.fresh
  rw [hcur, nil_append] at hn
  rw [hglob]
  refine ⟨?_, ?_, fun he => ?_⟩
  · simp only [Block.Bound]
    intro a ha
    refine (hall.bound a ha).mono ?_
    rw [visible, hchain, hlink]
    simp only [flatMap_cons, flatMap_nil, append_nil]
    exact fun x hx => (mem_append.1 hx).elim (mem_append_left _) fun h =>
      mem_append_right _ (Scope.slots_foldl_link linked { kind := .linked } h)
  · simp only [Block.binders, hn]
    exact hf
  · simp only [Block.Lands, or_false]
    refine fun a ha => (hall.lands he a ha).mono fun id hid => ?_
    rw [ScopeTable.Target, hchain] at hid
    rcases hid with ⟨name, e, hl, rfl⟩ | ⟨-, ⟨name, e, hl, rfl⟩ | ⟨-, hf⟩⟩
    · exact Stmt.labelAmong_of_mem (hd.mem_targets (errors_eq_of_onward hr.onward hd.onward he).2
        (hrest ▸ hw) (by rw [hend]; rfl) hl)
    · rw [hlink, Scope.label?, Scope.labels_foldl_link] at hl
      cases hl
    · cases hf

lemma scoped_of_parse {tokens options natives}
    (ht : ∃ body eof, tokens = body ++ [eof] ∧ eof.kind = .endOfInput)
    (h : (parse tokens options natives linked supply).result = .ok u) :
    u.Scoped linked supply.slot (parse tokens options natives linked supply).supply.slot := by
  obtain ⟨body, eof, rfl, he⟩ := ht
  simp only [parse, Parser.parse, Parser.new] at h ⊢
  generalize hr : (parseUnit _).run _ _ = r at h ⊢
  cases r with
  | error e s => cases h
  | ok statements s =>
    cases h
    obtain ⟨hb, hf, hl⟩ := scoped_of_parseUnit (by simpa using he) ⟨_, rfl⟩ hr
    exact ⟨hb, hf, hl, rfl⟩

/-- **Compiled units are well scoped.** -/
theorem scoped_of_compile {source options natives}
    (h : (compile source options natives linked supply).result = .ok u) :
    u.Scoped linked supply.slot (compile source options natives linked supply).supply.slot := by
  simp only [compile, Except.map] at h ⊢
  split at h <;> cases h
  rename_i v hv
  have := scoped_of_parse (Scan.exists_tokens options.file _ _) hv
  exact ⟨this.bound, this.fresh, this.lands, this.exported⟩

end

end DynScript

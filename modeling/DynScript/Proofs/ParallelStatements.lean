import DynScript.Proofs.ParallelGrammar

/-!
# Statements in parallel parses

Statements and declarations read their last token themselves, so they follow firmly: whatever the second
parse has to come, it is behind them.

Main declarations: `Coding.Lawful.parsed`.
-/

namespace DynScript

open Grammar

open Parse Parallel List

namespace Grammar

variable {P : Parallel} {g h : Grammar} {deep lax : Prop}

/-! ### What statements consume -/

section

variable (P g)

lemma consumes_block (brace) : P.Consumes (g.block brace) :=
  .inScope (.right fun _ => .right fun _ => .right fun _ => (Consumes.expect _ _).left)

lemma consumes_expressionStatement : P.Consumes g.expressionStatement :=
  .right fun _ => (Consumes.expect _ _).left

section

variable (keyword : Token)

lemma consumes_printStatement : P.Consumes (g.printStatement keyword) :=
  .right fun _ => (Consumes.expect _ _).left

lemma consumes_ifStatement : P.Consumes (g.ifStatement keyword) :=
  (Consumes.expect _ _).left

lemma consumes_switchStatement : P.Consumes (g.switchStatement keyword) :=
  (Consumes.expect _ _).left

lemma consumes_forStatement : P.Consumes (g.forStatement keyword) :=
  .inScope (.right fun _ => .right fun _ => (Consumes.expect _ _).left)

lemma consumes_whileStatement : P.Consumes (g.whileStatement keyword) :=
  .inScope (.right fun _ => .right fun _ => (Consumes.expect _ _).left)

end

lemma consumes_gotoStatement : P.Consumes gotoStatement :=
  (Consumes.expect _ _).left

lemma consumes_loopJump (kind missing message keyword) :
    P.Consumes (loopJump kind missing message keyword) := by
  refine .right fun scopes => ?_
  split
  · exact .fail _ _
  · exact (Consumes.expect _ _).left

lemma consumes_returnStatement (keyword) : P.Consumes (g.returnStatement keyword) := by
  refine .right fun _ => .right fun scopes => ?_
  split
  · exact .fail _ _
  · exact (Consumes.expect _ _).left

lemma consumes_statement (t : Token) : P.Consumes <|
    match t.kind with
    | .leftBrace => do let _ ← advance; return .block (← g.block t)
    | .kwIf => do let _ ← advance; g.ifStatement t
    | .kwSwitch => do let _ ← advance; g.switchStatement t
    | .kwFor => do let _ ← advance; g.forStatement t
    | .kwWhile => do let _ ← advance; g.whileStatement t
    | .kwBreak => do
      let _ ← advance
      loopJump .breakLoop .nothingToBreak "Expect ';' after break statement." t
    | .kwContinue => do
      let _ ← advance
      loopJump .continueLoop .nothingToContinue "Expect ';' after continue statement." t
    | .kwGoto => do let _ ← advance; gotoStatement
    | .kwReturn => do let _ ← advance; g.returnStatement t
    | .kwPrint => do let _ ← advance; g.printStatement t
    | _ => g.expressionStatement := by
  split
  · exact .right fun _ => (consumes_block P g t).left
  · exact .right fun _ => consumes_ifStatement P g t
  · exact .right fun _ => consumes_switchStatement P g t
  · exact .right fun _ => consumes_forStatement P g t
  · exact .right fun _ => consumes_whileStatement P g t
  · exact .right fun _ => consumes_loopJump P _ _ _ t
  · exact .right fun _ => consumes_loopJump P _ _ _ t
  · exact .right fun _ => consumes_gotoStatement P
  · exact .right fun _ => consumes_returnStatement P g t
  · exact .right fun _ => consumes_printStatement P g t
  · exact consumes_expressionStatement P g

lemma consumes_statementRule : P.Consumes g.statementRule :=
  .right fun t => consumes_statement P g t

end

namespace Follows

/-! ### Declarations -/

section

variable (hg : g.Follows P h)
include hg

lemma initialValue {name name'} (hn : P.Tokens name name') :
    P.Follows deep True P.coding.expr (g.initialValue name) (h.initialValue name') := by
  refine .bindLax (.accept .assign (.inl trivial)) fun x _ e => ?_
  subst e
  split
  · exact hg.conditional
  · exact .pure (P.lawful.literal hn.place)

lemma varDeclaration :
    P.Follows deep lax P.coding.stmt g.varDeclaration h.varDeclaration :=
  .bind (.name _) (fun _ _ hn => .bind (.declare hn false) (fun _ _ hs =>
    .bindExpect (hg.initialValue hn.1) fun _ _ hi _ _ _ =>
      .pure (P.lawful.declare hs.2 hs.1 (P.lawful.boxed hi) hn.1.place)) .inl) .inl

lemma letDeclaration :
    P.Follows deep lax P.coding.stmt g.letDeclaration h.letDeclaration :=
  .bind (.name _) (fun _ _ hn => .bind (.expect _ _) (fun _ _ _ =>
    .bind hg.conditional (fun _ _ he => .bind (.declare hn true) (fun _ _ hs =>
      .bind (.expect _ _) (fun _ _ _ => .pure (P.lawful.constant hs.2 hs.1 he hn.1.place)) .inl)
      .inl)
    fun _ => .inr fun _ => .right fun _ => (Consumes.expect _ _).left) .inl) .inl

lemma functionDeclaration :
    P.Follows deep lax P.coding.stmt g.functionDeclaration h.functionDeclaration := by
  refine .bind (.name _) (fun name name' hn => .bind (.declare hn false) (fun _ _ hs =>
    .bind (.inScope (.bind (.reserve _) (fun _ _ he => .bind (.expect _ _) (fun _ _ _ =>
      .bind parameters (fun _ _ hp => .bind (.expect _ _) (fun _ _ hb => .bind (hg.block hb)
        (fun _ _ hb => .pure ?_) .inl) .inl) .inl) .inl) .inl))
    (fun _ _ hf => .pure (P.lawful.declare hs.2 hs.1 hf hn.1.place)) .inl) .inl) .inl
  rw [← hn.1.lexeme]
  exact P.lawful.function hp hb he .none hn.1.place

end

lemma labelDeclaration :
    P.Follows deep lax P.coding.stmt labelDeclaration labelDeclaration :=
  .bind (.expect _ _) (fun _ _ hn => .bind (.expect _ _) (fun _ _ _ => .bind (.placeLabel hn)
    (fun _ _ hl => .pure (P.lawful.target hl hn.place)) .inl) .inl) .inl

/-! ### Simple statements -/

lemma expressionStatement (hg : g.Follows P h) :
    P.Follows deep lax P.coding.stmt g.expressionStatement h.expressionStatement :=
  .bindExpect hg.conditional fun _ _ he _ _ _ => .pure (P.lawful.expression he (P.lawful.place he))

variable {keyword keyword' : Token}

lemma printStatement (hg : g.Follows P h)
    (hk : P.Tokens keyword keyword') : P.Follows deep lax P.coding.stmt
      (g.printStatement keyword) (h.printStatement keyword') :=
  .bindExpect hg.conditional fun _ _ he _ _ _ => .pure (P.lawful.print he hk.place)

lemma elseBranch (hg : g.Follows P h) :
    P.Follows deep lax (Option.Rel P.coding.stmt) g.elseBranch h.elseBranch := by
  refine .bind (.accept .kwElse (.inr rfl)) (fun x _ e => ?_) .inl
  subst e
  split
  · exact hg.statement'.map fun _ _ => .some
  · exact .pure .none

lemma ifStatement (hg : g.Follows P h)
    (hk : P.Tokens keyword keyword') : P.Follows deep lax P.coding.stmt
      (g.ifStatement keyword) (h.ifStatement keyword') :=
  .bind (.expect _ _) (fun _ _ _ => .bindExpect hg.conditional fun _ _ hc _ _ _ =>
    .bind hg.statement' (fun _ _ ha => .bind hg.elseBranch
      (fun _ _ hb => .pure (P.lawful.branch hc ha hb hk.place)) .inl) .inl) .inl

/-! ### Jumps -/

lemma lookupLabel {t t' : ScopeTable} (ht : t.Like P.toOverlay t' ∧ P.Within t) (name) :
    Option.Rel (LabelEntry.Like P.toOverlay) (t.lookupLabel name) (t'.lookupLabel name) ∨
      t.lookupLabel name = none ∧ ¬ P.full :=
  (ht.1.lookupLabel ht.2 name).imp_right fun h =>
    ⟨h.1, fun full => P.full_improper full (.inr h.2)⟩

lemma loopJump (kind missing message) (hk : P.Tokens keyword keyword') :
    P.Follows deep lax P.coding.stmt (loopJump kind missing message keyword)
      (loopJump kind missing message keyword') := by
  refine .bind .scopes (fun t t' ht => ?_) .inl
  rcases lookupLabel ht kind.word with found | ⟨none, partly⟩
  · generalize t.lookupLabel kind.word = o at found
    generalize t'.lookupLabel kind.word = o' at found
    cases found with
    | none => exact .fail (fun _ => rfl) hk.same
    | some he => exact .bind (.expect _ _) (fun _ _ _ => .pure (P.lawful.jump he.label .none hk.place)) .inl
  · rw [none]
    exact .stop_of_not_full partly _ _

lemma gotoStatement :
    P.Follows deep lax P.coding.stmt gotoStatement gotoStatement := by
  refine .bind (.expect _ _) (fun name name' hn => .bind .scopes (fun t t' ht => ?_) .inl) .inl
  rw [← hn.lexeme]
  rcases lookupLabel ht name.lexeme with found | ⟨none, partly⟩
  · generalize t.lookupLabel name.lexeme = o at found
    generalize t'.lookupLabel name.lexeme = o' at found
    cases found with
    | none => exact .fail (fun _ => rfl) hn.same
    | some he =>
      dsimp only
      rw [← (P.lawful.label_eq he.label).2]
      split
      · exact .bind (.expect _ _) (fun _ _ _ => .pure (P.lawful.jump he.label .none hn.place)) .inl
      · exact .fail (fun _ => rfl) hn.same
  · rw [none]
    exact .stop_of_not_full partly _ _

lemma returnValue (hg : g.Follows P h)
    (hk : P.Tokens keyword keyword') : P.Follows deep True P.coding.expr
      (g.returnValue keyword) (h.returnValue keyword') := by
  refine .bindLax (.check .semicolon (.inl trivial)) fun x _ e => ?_
  subst e
  split
  · exact .pure (P.lawful.literal hk.place)
  · exact hg.conditional

lemma returnStatement (hg : g.Follows P h)
    (hk : P.Tokens keyword keyword') : P.Follows deep lax P.coding.stmt
      (g.returnStatement keyword) (h.returnStatement keyword') := by
  refine .bind (hg.returnValue hk) (fun _ _ hv => .bind .scopes (fun t t' ht => ?_) .inl)
    fun _ => .inr fun _ => .right fun t => ?_
  · rcases lookupLabel ht LabelKind.returnCall.word with found | ⟨none, partly⟩
    · generalize t.lookupLabel LabelKind.returnCall.word = o at found
      generalize t'.lookupLabel LabelKind.returnCall.word = o' at found
      cases found with
      | none => exact .fail (fun _ => rfl) hk.same
      | some he =>
        exact .bind (.expect _ _)
          (fun _ _ _ => .pure (P.lawful.jump he.label (.some (P.lawful.boxed hv)) hk.place)) .inl
    · rw [none]
      exact .stop_of_not_full partly _ _
  · split
    · exact .fail _ _
    · exact (Consumes.expect _ _).left

/-! ### Switches -/

lemma cases (hg : g.Follows P h) : ∀ {n n' : Nat}, Follows.Rounds P n n' →
    P.Follows deep True (Forall₂ P.coding.cases) (g.cases n) (h.cases n')
  | 0, _, hn => .exhausted hn rfl
  | n + 1, 0, hn => absurd hn.1 (by omega)
  | n + 1, n' + 1, hn => by
    refine .bindExpect hg.conditional fun _ _ ht _ _ _ => .bindLax hg.statement' fun _ _ hb =>
      .bindLax (.accept .kwCase (.inl trivial)) fun x _ e => ?_
    subst e
    split
    · exact .bindLax (hg.cases hn.pred) fun _ _ hl => .pure (.cons ⟨ht, hb⟩ hl)
    · exact .pure (.cons ⟨ht, hb⟩ .nil)

lemma defaultCase (hg : g.Follows P h) :
    P.Follows deep True (Option.Rel P.coding.stmt) g.defaultCase h.defaultCase := by
  refine .bindLax (.accept .kwDefault (.inl trivial)) fun x _ e => ?_
  subst e
  split
  · exact .bindLax (.expect _ _) fun _ _ _ => hg.statement'.map fun _ _ => .some
  · exact .pure .none

lemma switchChain {slot slot'} (hs : P.coding.hidden slot slot') {l l'}
    (hl : Forall₂ P.coding.cases l l') {o o'} (ho : Option.Rel P.coding.stmt o o') :
    Option.Rel P.coding.stmt (switchChain slot l o) (switchChain slot' l' o') := by
  induction hl with
  | nil => exact ho
  | cons hx _ ih =>
    have test := P.lawful.place hx.1
    exact .some (P.lawful.branch (P.lawful.compare hs hx.1 test) hx.2 ih test)

section

variable (hg : g.Follows P h)
include hg

lemma switchStatement
    (hk : P.Tokens keyword keyword') : P.Follows deep lax P.coding.stmt
      (g.switchStatement keyword) (h.switchStatement keyword') :=
  .bind (.expect _ _) (fun _ _ _ => .bindExpect hg.conditional fun _ _ hv _ _ _ =>
    .bind (.expect _ _) (fun _ _ _ => .bind (.expect _ _) (fun _ _ _ =>
    .bind (.hiddenSlot hk.place) (fun _ _ hs => .bind .rounds (fun _ _ hn => .bind (hg.cases hn)
      (fun _ _ hc => .bindExpect hg.defaultCase fun _ _ ho _ _ _ =>
        .pure (P.lawful.switch hs (P.lawful.boxed hv) (switchChain hs hc ho) hk.place))
      fun _ => .inr fun _ => .right fun _ => (Consumes.expect _ _).left) .inl) .inl) .inl) .inl)
    .inl

/-! ### Loops -/

lemma forInitial :
    P.Follows deep True (Option.Rel P.coding.stmt) g.forInitial h.forInitial := by
  refine .bindLax (.accept .semicolon (.inl trivial)) fun x _ e => ?_
  subst e
  split
  · exact .pure .none
  · refine .bindLax (.accept .kwVar (.inl trivial)) fun x _ e => ?_
    subst e
    split
    · exact .bindLax hg.varDeclaration fun _ _ hv => .pure (.some hv)
    · exact .bindLax hg.expressionStatement fun _ _ hv => .pure (.some hv)

lemma forCondition
    (hk : P.Tokens keyword keyword') : P.Follows deep True P.coding.expr
      (g.forCondition keyword) (h.forCondition keyword') := by
  refine .bindLax (.check .semicolon (.inl trivial)) fun x _ e => ?_
  subst e
  split
  · exact .pure (P.lawful.literal hk.place)
  · exact hg.conditional

lemma forStep :
    P.Follows deep True (Option.Rel P.coding.expr) g.forStep h.forStep := by
  refine .bindLax (.check .rightParen (.inl trivial)) fun x _ e => ?_
  subst e
  split
  · exact .pure .none
  · exact hg.conditional.map fun _ _ => .some

end

lemma withInitial {o o'} (ho : Option.Rel P.coding.stmt o o') {a a'} (ha : P.coding.stmt a a')
    {slots slots'} (hs : Forall₂ P.coding.slot slots slots') {p p'} (hp : P.coding.place p p') :
    P.coding.stmt (withInitial o a slots p) (withInitial o' a' slots' p') := by
  cases ho with
  | none => exact ha
  | some hf => exact P.lawful.nested (P.lawful.block (.cons hf (.cons ha .nil)) hs hp)

lemma forStatement (hg : g.Follows P h)
    (hk : P.Tokens keyword keyword') : P.Follows deep lax P.coding.stmt
      (g.forStatement keyword) (h.forStatement keyword') := by
  refine .inScope (.bind (.reserve _) (fun _ _ he => .bind (.reserve _) (fun _ _ hn =>
    .bind (.expect _ _) (fun _ _ _ => .bind hg.forInitial (fun _ _ hi =>
      .bindExpect (hg.forCondition hk) fun _ _ hc _ _ _ =>
      .bindExpect hg.forStep fun _ _ ht _ _ _ => .bind hg.statement' (fun _ _ hb =>
      .bind .currentSlots (fun _ _ hs => .pure ?_) .inl) .inl)
    fun _ => .inr fun _ => .right fun _ => (Consumes.expect _ _).left) .inl) .inl) .inl)
  exact withInitial hi (P.lawful.loop hc hb ht he hn hk.place) hs hk.place

lemma whileStatement (hg : g.Follows P h)
    (hk : P.Tokens keyword keyword') : P.Follows deep lax P.coding.stmt
      (g.whileStatement keyword) (h.whileStatement keyword') :=
  .inScope (.bind (.reserve _) (fun _ _ he => .bind (.reserve _) (fun _ _ hn =>
    .bind (.expect _ _) (fun _ _ _ => .bindExpect hg.conditional fun _ _ hc _ _ _ =>
      .bind hg.statement' (fun _ _ hb => .pure (P.lawful.loop hc hb .none he hn hk.place)) .inl) .inl)
    .inl) .inl)

/-! ### Statements and declarations -/

lemma behind {α β : Type} {R : α → β → Prop} {p q} (h : P.Follows deep lax R p q)
    (hc : P.Consumes p) :
    P.Follows deep lax R (advance >>= fun _ => p) (advance >>= fun _ => q) :=
  .bind .advance (fun _ _ _ => h) fun _ => .inr fun _ => hc

lemma statementRule (hg : g.Follows P h) :
    P.Follows deep lax P.coding.stmt g.statementRule h.statementRule := by
  refine .bind .peek (fun t t' next => ?_) fun _ => .inr fun t => consumes_statement P g t
  rw [← next.kind]
  by_cases ended : t.kind = .endOfInput
  · rw [ended]
    exact hg.expressionStatement
  have ht := next.tokens ended
  split
  · exact behind (.bind (hg.block ht) (fun _ _ hb => .pure (P.lawful.nested hb)) .inl)
      (consumes_block P g t).left
  · exact behind (hg.ifStatement ht) (consumes_ifStatement P g t)
  · exact behind (hg.switchStatement ht) (consumes_switchStatement P g t)
  · exact behind (hg.forStatement ht) (consumes_forStatement P g t)
  · exact behind (hg.whileStatement ht) (consumes_whileStatement P g t)
  · exact behind (loopJump _ _ _ ht) (consumes_loopJump P _ _ _ t)
  · exact behind (loopJump _ _ _ ht) (consumes_loopJump P _ _ _ t)
  · exact behind gotoStatement (consumes_gotoStatement P)
  · exact behind (hg.returnStatement ht) (consumes_returnStatement P g t)
  · exact behind (hg.printStatement ht) (consumes_printStatement P g t)
  · exact hg.expressionStatement

lemma declarationRule (hg : g.Follows P h) :
    P.Follows deep lax (Option.Rel P.coding.stmt) g.declarationRule
      h.declarationRule := by
  refine .recovering (.bind .peek (fun t t' ht => ?_) fun _ => .inr fun t => ?_)
  · rw [← ht.kind]
    split
    · exact behind (hg.varDeclaration.map fun _ _ => .some) (Consumes.expect _ _).left.map
    · exact behind (hg.letDeclaration.map fun _ _ => .some) (Consumes.expect _ _).left.map
    · exact behind (hg.functionDeclaration.map fun _ _ => .some) (Consumes.expect _ _).left.map
    · exact behind (labelDeclaration.map fun _ _ => .some) (Consumes.expect _ _).left.map
    · exact behind (.fail (fun _ => rfl) ht.same) (.fail _ _)
    · exact hg.statementRule.map fun _ _ => .some
  · split
    · exact .right fun _ => (Consumes.expect _ _).left.map
    · exact .right fun _ => (Consumes.expect _ _).left.map
    · exact .right fun _ => (Consumes.expect _ _).left.map
    · exact .right fun _ => (Consumes.expect _ _).left.map
    · exact .right fun _ => .fail _ _
    · exact (consumes_statementRule P g).map

/-! ### The whole grammar -/

/-- **The grammar does in the second of two parallel parses what it does in the first.** -/
theorem unrolled : ∀ {n n' : Nat}, Follows.Rounds P n n' →
    (Grammar.unrolled n).Follows P (Grammar.unrolled n')
  | 0, n', hn =>
    ⟨.exhausted (q := fun n => (Grammar.unrolled n).unary) hn rfl,
      .exhausted (q := fun n => (Grammar.unrolled n).expression) hn rfl,
      .exhausted (q := fun n => (Grammar.unrolled n).statement) hn rfl,
      .exhausted (q := fun n => (Grammar.unrolled n).declaration) hn rfl,
      P.eof_kind.imp_right fun hk => sound_unrolled hk 0⟩
  | n + 1, 0, hn => absurd hn.1 (by omega)
  | n + 1, n' + 1, hn =>
    have hg := unrolled hn.pred
    ⟨hg.prefixed, hg.conditional, hg.statementRule, hg.declarationRule,
      P.eof_kind.imp_right fun hk => sound_unrolled hk (n + 1)⟩

lemma unit (hg : g.Follows P h) : ∀ {n n' : Nat}, Follows.Rounds P n n' →
    P.Follows deep True (Forall₂ P.coding.stmt) (g.unit n) (h.unit n')
  | 0, _, hn => .exhausted hn rfl
  | n + 1, 0, hn => absurd hn.1 (by omega)
  | n + 1, n' + 1, hn => by
    refine .bindLax .atEnd fun x _ e => ?_
    subst e
    split
    · exact .pure .nil
    · exact (hg.declaration.weaken False.elim).bindLax fun _ _ ho =>
        (hg.unit hn.pred).bindLax fun _ _ hl => .pure (rel_append (forall₂_toList ho) hl)

end Follows

end Grammar

/-! ### Full parses of a unit -/

namespace Parallel

lemma follows_parseUnit {P : Parallel} (full : P.full) {n n' : Nat} (hn : Follows.Rounds P n n') :
    P.Follows False True (Forall₂ P.coding.stmt) (parseUnit n) (parseUnit n') :=
  .announceLabels (.bindLax .rounds fun _ _ hr => (Grammar.Follows.unrolled hn).unit hr)
    (.inr full) (.inl full)

/-- The same tokens twice, with numbers related up to some limits. -/
def again {c : Coding} (hc : c.Lawful) (slotLimit labelLimit : Nat) (slots labels : Nat × Nat)
    (context : ParseContext) (he : context.eof.Like c True context.eof)
    (hn : ∀ name f, context.natives.lookup name = some f → c.native f) : Parallel where
  coding := c
  lawful := hc
  slotLimit := slotLimit
  labelLimit := labelLimit
  slotOrigins := slots
  labelOrigins := labels
  before := []
  extra := []
  kept _ := none
  full := True
  first := context
  second := context
  more := []
  eof_kind := .inl trivial
  eof_kind_eq := rfl
  natives := rfl
  allowed := hn
  bound_le := Nat.le_refl _
  otherwise := otherwise_nil
  full_eof _ := he
  full_bound _ := rfl
  full_strict _ := rfl
  full_more _ := rfl
  full_improper _ := by simp [Overlay.Proper]

end Parallel

/-- Two parses end alike: with the same errors, and with as many numbers handed out since the given
ones. -/
structure ParseState.EndsLike (slots labels : Nat × Nat) (s s' : ParseState) : Prop where
  errors : s.errors = s'.errors
  slots : s.scopes.nextSlot + slots.2 = s'.scopes.nextSlot + slots.1
  labels : s.scopes.nextLabel + labels.2 = s'.scopes.nextLabel + labels.1

/-- Like outcomes of parsing a unit. -/
inductive Coding.Parsed (c : Coding) (slots labels : Nat × Nat) :
    ParseResult (List Stmt) → ParseResult (List Stmt) → Prop where
  | ok {l l'} {s s' : ParseState} (statements : Forall₂ c.stmt l l')
    (globals : Forall₂ c.slot s.scopes.globals.slots s'.scopes.globals.slots)
    (ends : s.EndsLike slots labels s') : Parsed c slots labels (.ok l s) (.ok l' s')
  | error (e : ParseFailure) {s s' : ParseState} (ends : s.EndsLike slots labels s') :
    Parsed c slots labels (.error e s) (.error e s')

/-- The state in which a parse starts with the given linked names and numbers. -/
def ParseState.fresh (last : Token) (rest : List Token) (linked : Scope) (slot label : Nat) :
    ParseState where
  last := last
  rest := rest
  scopes := { linked := linked, nextSlot := slot, nextLabel := label }

/-- **Parsing the same tokens twice makes related code**, as far as the numbers are related. -/
theorem Coding.Lawful.parsed {c : Coding} (hc : c.Lawful) (n : Nat) (context : ParseContext)
    (last rest) (ht : ∀ t ∈ context.eof :: last :: rest, t.Like c True t)
    (hn : ∀ name f, context.natives.lookup name = some f → c.native f) (linked linked' : Scope)
    (hl : Forall₂ c.slot linked.slots linked'.slots) (hu : linked.labels = [] ∧ linked'.labels = [])
    {i i' j j' slotLimit labelLimit : Nat}
    (hi : ∀ k, i + k < slotLimit → c.slotNumber (i + k) (i' + k))
    (hj : ∀ k, j + k < labelLimit → c.labelNumber (j + k) (j' + k))
    (hslot : ((parseUnit n).run context (.fresh last rest linked i j)).state.scopes.nextSlot ≤
      slotLimit)
    (hlabel : ((parseUnit n).run context (.fresh last rest linked i j)).state.scopes.nextLabel ≤
      labelLimit) :
    c.Parsed (i, i') (j, j') ((parseUnit n).run context (.fresh last rest linked i j))
      ((parseUnit n).run context (.fresh last rest linked' i' j')) := by
  obtain ⟨he, ht⟩ := forall_mem_cons.1 ht
  obtain ⟨hlast, hrest⟩ := forall_mem_cons.1 ht
  let P := Parallel.again hc slotLimit labelLimit (i, i') (j, j') context he hn
  have states : P.States (.fresh last rest linked i j) (.fresh last rest linked' i' j') := by
    refine ⟨fun _ => hlast, ⟨_, (append_nil _).symm, forall₂_same.2 hrest⟩, ?_, rfl⟩
    refine ⟨.nil, ?_, hl, hu, hi, hj, Nat.add_comm _ _, Nat.add_comm _ _⟩
    exact ⟨rfl, ⟨[], rfl, .nil⟩, forall_mem_nil _, fun _ _ => .none, forall_mem_nil _⟩
  have rounds : Parallel.Follows.Rounds P n n := ⟨Nat.le_refl _, fun _ => rfl⟩
  have outcome := Parallel.follows_parseUnit (P := P) trivial rounds _ _ states False.elim
  change P.Outcome _ _ ((parseUnit n).run context _) ((parseUnit n).run context _) at outcome
  generalize (parseUnit n).run context (.fresh last rest linked i j) = r at hslot hlabel outcome ⊢
  cases r with
  | error e t =>
    obtain ⟨t', hr', ht⟩ := outcome trivial ⟨hslot, hlabel, forall_mem_nil _⟩
    rw [hr']
    exact .error e ⟨ht.errors, ht.scopes.slotsInStep, ht.scopes.labelsInStep⟩
  | ok l t =>
    have good : P.Good t := ⟨⟨hslot, hlabel, forall_mem_nil _⟩, .inl trivial⟩
    rcases outcome good fun _ => .inr rfl with ⟨hf, -⟩ | ⟨l', t', hr', hll, ht⟩
    · exact absurd trivial hf
    · obtain ⟨own, globals, slots⟩ := ht.scopes.globals.slots
      rw [hr']
      refine .ok hll ?_ ⟨ht.errors, ht.scopes.slotsInStep, ht.scopes.labelsInStep⟩
      rw [globals]
      exact slots

end DynScript

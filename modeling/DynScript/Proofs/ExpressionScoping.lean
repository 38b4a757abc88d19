import DynScript.Proofs.Declaring

/-!
# Expressions are well scoped

Every rule of the grammar, when it gives a result, has read well-scoped code: each variable is bound
around the places that use it, with a number of its own, and as long as no error was recorded each jump
leads to a label in sight.
-/

namespace DynScript

open List
open Code (Bound Lands binders)

namespace Grammar

open Parse

/-- What the rules of a grammar give is well scoped, in an input with an end. -/
structure Sound (g : Grammar) (c : ParseContext) : Prop where
  eof : c.eof.kind = .endOfInput
  unary : ∀ s, g.unary.Gives c s (Quiet 0 0 s)
  expression : ∀ s, g.expression.Gives c s (Quiet 0 0 s)
  statement : ∀ s, g.statement.Gives c s fun a u => Quiet 0 0 s a u ∧ a.target? = none
  declaration : ∀ s, g.declaration.Gives c s fun o u => Declares s o.toList u

variable {c : ParseContext} {g : Grammar} (hg : g.Sound c) {s u : ParseState}

include hg

/-! ### Blocks and parameters -/

lemma gives_declarations : ∀ n s, (g.declarations n).Gives c s (Declares s)
  | 0, _ => .stop _
  | n + 1, s => by
    refine .seen rfl (.seen rfl ?_)
    split
    · exact .pure (.nil s)
    · exact .bind (hg.declaration s) fun _ t ho =>
        .bind (gives_declarations n t) fun _ _ hl => .pure (ho.append hl)

lemma quiet_block (brace s) : (g.block brace).Gives c s (Quiet 1 0 s) := by
  refine .inScope (.bind (fun _ _ => reads_of_announceLabels (by simp)) fun _ v ⟨hr, hrest, hw⟩ =>
    .seen rfl (.bind (gives_declarations hg _ v) fun l w hd => .expect fun x t hk hx =>
      .seen rfl (.pure ?_)))
  have hall := (hr.andThen (hd.toReads.andThen (hx.quiet (.closing hk)).toReads)).map (c := l)
    (fun h => h.2.1) (by simp [binders]) (fun h => h.2.1)
  refine hall.leave rfl (fun hb => ?_) ?_ fun he hland => ?_
  · simpa [Bound, Block.Bound] using hb
  · simp [binders, Block.binders]
  · -- the labels of the scope are all among the statements, and beyond it are those in sight before
    have hew := (errors_eq_of_onward (hr.onward.trans hd.onward)
      (hx.quiet (.closing hk)).onward he).1
    have heo := (errors_eq_of_onward hr.onward hd.onward hew).2
    have hc : t.scopes.current = w.scopes.current := by rw [hx.eq]
    simp only [Lands, Block.Lands]
    refine fun a ha => (hland a ha).mono fun id hid => ?_
    rw [ScopeTable.Target, ScopeTable.chain_eq, hall.onward.scopes.around,
      hall.onward.scopes.linked] at hid
    rcases hid with ⟨name, e, hn, rfl⟩ | ⟨-, hid⟩
    · rw [hc] at hn
      refine .inl (Stmt.labelAmong_of_mem (hd.mem_targets heo (hrest ▸ hw) ?_ hn))
      simp [hx.rest, labelsAhead, hk]
    · right
      rw [ScopeTable.Target, ScopeTable.chain_eq, ← cons_append, ← ScopeTable.stack_eq]
      exact hid

omit hg in
lemma adds_parameters (s) : parameters.Gives c s fun l u => Adds l 0 0 s () u := by
  have item (s : ParseState) : (do declare (← expect .identifier "Expect parameter name.")).Gives c s
      fun a u => Adds [a] 0 0 s () u :=
    (Quiet.start s).expect (by decide) fun _ _ ht _ _ h => ht.adds.before (adds_of_declareAs h)
  refine .bind (gives_listed (R := fun s l u => Adds l 0 0 s () u) (Quiet.refl _).adds item id
    (fun h ht hx g => h.before ((ht.plain (by rw [hx]; decide)).adds.before g)) s) fun l t hl =>
      .expect fun _ _ hk ht => .pure ?_
  simpa using hl.before (ht.plain (by rw [hk]; decide)).adds

/-! ### Operands -/

lemma quiet_boxed (s) : (Expr.boxed <$> g.expression).Gives c s (Quiet 0 0 s) :=
  .bind (hg.expression s) fun _ _ h => .pure h.boxed

lemma quiet_enclosed {close : TokenKind} {message} (hc : close.Plain) (s) :
    (enclosed (Expr.boxed <$> g.expression) close message).Gives c s (Quiet 0 0 s) :=
  .bind (quiet_listed (quiet_boxed hg) s) fun _ _ hl => hl.expect hc fun _ _ h => .pure h

lemma quiet_arrayLiteral (bracket s) : (g.arrayLiteral bracket).Gives c s (Quiet 0 0 s) :=
  .bind (quiet_enclosed hg (by decide) s) fun _ _ h => .pure
    (h.map (by simp [Bound, Expr.Bound]) (by simp [binders, Expr.binders])
      (by simp [Lands, Expr.Lands]))

omit hg in
lemma quiet_fieldName (s) : fieldName.Gives c s fun _ u => Quiet 0 0 s () u :=
  (Quiet.start s).accept? (by decide) (fun _ _ h => .pure h) ((Quiet.start s).accept? (by decide)
    (fun _ _ h => .pure h) (.bind (fun _ _ _ => trivial) fun _ _ _ => .fail))

lemma quiet_recordField (s) : g.recordField.Gives c s (Quiet 0 0 s) :=
  .bind (quiet_fieldName s) fun _ _ h => h.expect (by decide) fun _ t h => h.bind (hg.expression t)
    fun _ _ h => .pure (h.map (by simp +contextual [Bound])
      (by simp [binders, Expr.binders_boxed]) (by simp +contextual [Lands]))

lemma quiet_recordLiteral (brace s) : (g.recordLiteral brace).Gives c s (Quiet 1 0 s) := by
  refine .bind (P := fun r u => Quiet 1 1 s (Expr.record r.2 r.1 brace.location) u) ?_ fun r t h =>
    .expect fun _ _ hk hx => .pure (h.after (hx.quiet (.closing hk)))
  refine .inScope (.bind (P := fun self v => Adds [self] 0 0 _ () v) (fun _ _ => adds_of_declareAs)
    fun self v hs => .bind (quiet_listed (quiet_recordField hg) v) fun l w hl => .pure ?_)
  have hall := hs.before hl.adds
  have hslots : w.scopes.current.slots = [self] := by simpa using hall.slots
  refine (hall.toReads.deeper 1).leave rfl (fun hb => ?_) ?_ fun _ hland => ?_
  · rw [hslots] at hb
    simp only [Bound, Expr.Bound]
    exact fun name e he => (hb (name, e) he).2
  · simp [binders, Expr.binders, hslots]
  · simp only [Lands, Expr.Lands]
    exact fun name e he => (hland (name, e) he).2

omit hg in
lemma quiet_of_functionScope (name) {params body exit} (self : Option Slot) (place) {t}
    (h : Reads 0 0 { s with scopes := s.scopes.enter .function } body t)
    (hs : t.scopes.current.slots = self.toList ++ params)
    (hl : t.scopes.current.labels = [{ label := exit, placed := true }]) :
    Quiet 0 0 s (Expr.function name params body exit self place) (unwind s.scopes.depth t) := by
  refine h.leave rfl (fun hb => ?_) ?_ fun _ hland => ?_
  · simpa [Bound, Expr.Bound, hs] using hb
  · simp [binders, Expr.binders, hs]
  · simp only [Lands, Expr.Lands]
    refine Block.Lands.mono (fun id hid => ?_) hland
    rw [ScopeTable.Target, ScopeTable.chain_eq] at hid
    rcases hid with ⟨name, e, hn, rfl⟩ | ⟨hk, -⟩
    · have := mem_of_find?_eq_some hn
      simp only [hl, mem_singleton] at this
      rw [this]
    · exact absurd h.onward.scopes.kind hk

lemma quiet_lambdaBody {exit : Label} (hx : s.scopes.Target exit.id) :
    (g.lambdaBody exit).Gives c s (Quiet 0 0 s) := by
  refine (Quiet.start s).accept? (by decide) (fun _ t h => h.bind (hg.expression t) fun e v h => .pure ?_)
    (.expect fun _ t hk ht => (quiet_block hg _ t).mono fun _ _ => (ht.quiet (.opening hk)).before)
  refine h.map ?_ ?_ fun hland => ?_
  · simp [Bound, Block.Bound, Stmt.Bound]
  · simp [binders, Block.binders, Stmt.binders]
  · simp only [Lands, Block.Lands]
    intro a ha
    obtain rfl := mem_singleton.1 ha
    simp only [Stmt.Lands]
    refine ⟨.inr (h.onward.scopes.target hx), ?_⟩
    rintro e ⟨⟩
    exact Expr.lands_boxed.2 hland.2

omit hg in
lemma gives_functionHead {message} {α : Type} {f : Label → List Slot → Parse α}
    {Q : α → ParseState → Prop}
    (hf : ∀ exit params u, Reads 0 0 s () u →
      u.scopes.current.slots = s.scopes.current.slots ++ params →
      u.scopes.current.labels = s.scopes.current.labels ++ [{ label := exit, placed := true }] →
      (f exit params).Gives c u Q) :
    (do
      let exit ← reserve .returnCall
      let _ ← expect .leftParen message
      let params ← parameters
      f exit params).Gives c s Q := by
  refine .bind (fun _ _ => reads_of_reserve (i := 0)) fun exit t ⟨hr, hc⟩ =>
    (Quiet.start t).expect (by decide) fun _ v hx => .bind (adds_parameters v) fun params u hp => ?_
  have hp := hx.adds.before hp
  refine hf exit params u ((hr.andThen hp.toReads).map (fun _ => trivial) rfl (fun _ => trivial)) ?_ ?_
  · rw [hp.slots, hc]
    rfl
  · rw [hp.labels, hc]
    rfl

omit hg in
lemma quiet_lambdaName (s) : lambdaName.Gives c s fun _ u => Quiet 0 0 s () u := by
  refine (Quiet.start s).accept? (by decide) (fun x t h => ?_) (.pure (.refl s))
  dsimp only
  split
  · exact .pure h
  · exact .fail

lemma quiet_lambda (keyword s) : (g.lambda keyword).Gives c s (Quiet 0 0 s) := by
  refine .bind (quiet_lambdaName s) fun name s₁ hn => ?_
  refine Gives.mono (P := Quiet 0 0 s₁) ?_ fun _ _ => hn.before
  refine .inScope (.bind (P := fun self v => Adds [self] 0 0 _ () v) (fun _ _ => adds_of_declareAs)
    fun self v hd => gives_functionHead fun exit params t hr hs hl => ?_)
  rw [hd.labels] at hl
  rw [hd.slots] at hs
  have hx : t.scopes.Target exit.id := by
    rw [ScopeTable.Target, ScopeTable.chain_eq]
    exact .inl ⟨exit.name, { label := exit, placed := true }, by simp [Scope.label?, hl], rfl⟩
  refine .bind (quiet_lambdaBody hg hx) fun body u hb => .pure ?_
  refine quiet_of_functionScope _ _ _ ((hd.toReads.andThen (hr.andThen hb.toReads)).map
    (fun h => h.2.2) rfl (fun h => h.2.2)) ?_ ?_
  · rw [hb.current, hs]
    rfl
  · rw [hb.current, hl]
    rfl

omit hg in
lemma quiet_lookup {name} {t : Token} {fault} (h : Quiet 0 0 u () s) :
    (match s.scopes.lookup name with
      | some slot => pure (.read slot t.location)
      | none => fail fault t : Parse Expr).Gives c s (Quiet 0 0 u) := by
  split
  · exact .pure (h.read (ScopeTable.mem_visible_of_lookup ‹_›))
  · exact .fail

lemma quiet_primary (s) : g.primary.Gives c s (Quiet 0 0 s) := by
  refine .seen rfl ?_
  split
  case h_9 => exact .fail
  all_goals
    rename_i hk
    refine (Quiet.start s).advance hg.eof (by rw [hk]; decide) fun _ t h => ?_
  case h_6 => exact .seen rfl (quiet_lookup h)
  case h_7 =>
    exact h.bind (hg.expression t) fun _ _ h => h.expect (by decide) fun _ _ h =>
      .pure (h.map And.right rfl And.right)
  case h_8 => exact .seen rfl (quiet_lookup h)
  all_goals exact .pure h.literal

lemma quiet_operand (s) : g.operand.Gives c s (Quiet 0 0 s) := by
  refine (Quiet.start s).accept? (by decide)
    (fun _ t h => (quiet_arrayLiteral hg _ t).mono fun _ _ => h.before) ?_
  refine .accept? (fun _ t hk ht => (quiet_recordLiteral hg _ t).mono fun _ _ =>
    (ht.quiet (.opening hk)).before) ?_
  exact (Quiet.start s).accept? (by decide)
    (fun _ t h => (quiet_lambda hg _ t).mono fun _ _ => h.before) (quiet_primary hg s)

/-! ### Behind an operand -/

lemma quiet_arguments (s) : g.arguments.Gives c s (Quiet 0 0 s) :=
  quiet_enclosed hg (by decide) s

lemma quiet_nativeCall (s) : g.nativeCall.Gives c s (Quiet 0 0 s) := by
  refine (Quiet.start s).expect (by decide) fun name t h => .seen rfl ?_
  dsimp only
  split
  · exact .fail
  · exact h.expect (by decide) fun _ t h => h.bind (quiet_arguments hg t) fun _ _ h => .pure
      (h.map (by simp [Bound, Expr.Bound]) (by simp [binders, Expr.binders])
        (by simp [Lands, Expr.Lands]))

variable {container : Expr} {k : TokenKind}

omit hg in
lemma quiet_of_indices {l : List Expr} {place} (h : Quiet 0 0 s (container, l) u) :
    Quiet 0 0 s (l.foldl (fun e i => Expr.index e i place) container) u := by
  induction l generalizing container with
  | nil => exact h.map And.left (by simp [binders]) And.left
  | cons i l ih =>
    refine ih (h.map (fun hb => ?_) ?_ fun hl => ?_)
    · simp_all [Bound, Expr.Bound]
    · simp [binders, Expr.binders]
    · simp_all [Lands, Expr.Lands]

omit hg in
lemma eq_of_checkIndex : checkIndex.Gives c s fun _ u => u = s :=
  .check (.bind (fun _ _ _ => trivial) fun _ _ _ => .fail) (.pure rfl)

omit hg in
lemma eq_of_checkItems {bracket} : (checkItems container bracket).Gives c s fun _ u => u = s := by
  unfold checkItems
  split <;> first | exact .pure rfl | exact .fail

omit hg in
lemma eq_of_checkFields {dot} : (checkFields container dot).Gives c s fun _ u => u = s := by
  unfold checkFields
  split <;> first | exact .pure rfl | exact .fail

lemma quiet_indexed {bracket} (h₀ : Quiet 0 0 u container s) :
    (g.indexed container bracket).Gives c s (Quiet 0 0 u) := by
  refine .bind eq_of_checkIndex ?_
  rintro _ _ rfl
  refine .bind eq_of_checkItems ?_
  rintro _ t rfl
  exact .seen rfl (h₀.bind (quiet_commaSeparated hg.expression _ t) fun _ _ h =>
    h.expect (by decide) fun _ _ h => .pure (quiet_of_indices h))

lemma quiet_fieldKey (s) : g.fieldKey.Gives c s (Quiet 0 0 s) :=
  (Quiet.start s).accept? (by decide) (fun _ _ h => .pure h.literal) ((Quiet.start s).accept (by decide)
    (fun t h => (quiet_operand hg t).mono fun _ _ => h.before) (.seen rfl .fail))

lemma quiet_fieldOf {dot} (h₀ : Quiet 0 0 u container s) :
    (g.fieldOf container dot).Gives c s (Quiet 0 0 u) := by
  refine .bind eq_of_checkFields ?_
  rintro _ t rfl
  exact h₀.bind (quiet_fieldKey hg t) fun _ _ h => .pure
    (h.map (by simp +contextual [Bound, Expr.Bound]) (by simp [binders, Expr.binders])
      (by simp +contextual [Lands, Expr.Lands]))

lemma quiet_suffixes : ∀ n {e : Expr} {s : ParseState}, Quiet 0 0 u e s →
    (g.suffixes n e).Gives c s (Quiet 0 0 u)
  | 0, _, _, _ => .stop _
  | n + 1, e, s, h₀ => by
    refine h₀.accept? (by decide) (fun _ t h => h.bind (quiet_arguments hg t) fun _ _ h =>
      quiet_suffixes n (h.map ?_ ?_ ?_)) (h₀.accept? (by decide)
        (fun _ _ h => .bind (quiet_indexed hg h) fun _ _ h => quiet_suffixes n h)
        (h₀.accept? (by decide) (fun _ _ h => .bind (quiet_fieldOf hg h) fun _ _ h =>
          quiet_suffixes n h) (.pure h₀)))
    · simp +contextual [Bound, Expr.Bound]
    · simp [binders, Expr.binders]
    · simp +contextual [Lands, Expr.Lands]

lemma quiet_base (s) : g.base.Gives c s (Quiet 0 0 s) :=
  (Quiet.start s).accept (by decide) (fun t h => (quiet_nativeCall hg t).mono fun _ _ => h.before)
    (quiet_operand hg s)

lemma quiet_suffixed (s) : g.suffixed.Gives c s (Quiet 0 0 s) :=
  .bind (quiet_base hg s) fun _ _ h => .seen rfl (quiet_suffixes hg _ h)

/-! ### Assignments and operators -/

omit hg in
lemma quiet_assignment {target update operator what} (h : Quiet 0 0 u (target, update) s) :
    (assignment target update operator what).Gives c s (Quiet 0 0 u) := by
  unfold assignment
  split
  · split
    · exact .fail
    · refine .pure (h.map ?_ ?_ ?_)
      · simp [Bound, Expr.Bound]
      · simp [binders, Expr.binders]
      · simp [Lands, Expr.Lands]
  · refine .pure (h.map ?_ ?_ ?_)
    · simp +contextual [Bound, Expr.Bound]
    · simp [binders, Expr.binders]
    · simp +contextual [Lands, Expr.Lands]
  · refine .pure (h.map ?_ ?_ ?_)
    · simp +contextual [Bound, Expr.Bound]
    · simp [binders, Expr.binders]
    · simp +contextual [Lands, Expr.Lands]
  · exact .fail

omit hg in
lemma plain_of_updateOf? {f : Expr → Update} (h : updateOf? k = some f) :
    (k.Plain ∧ k ≠ .endOfInput) ∧ (f = .set ∨ ∃ op, f = .combine op) := by
  unfold updateOf? at h
  split at h <;> cases h
  · exact ⟨by decide, .inl rfl⟩
  all_goals exact ⟨by decide, .inr ⟨_, rfl⟩⟩

omit hg in
lemma plain_of_unaryOf? {op} (h : unaryOf? k = some op) : k.Plain ∧ k ≠ .endOfInput := by
  unfold unaryOf? at h
  split at h <;> cases h
  all_goals decide

omit hg in
lemma plain_of_stepOf? {op} (h : stepOf? k = some op) : k.Plain ∧ k ≠ .endOfInput := by
  unfold stepOf? at h
  split at h <;> cases h
  all_goals decide

omit hg in
lemma plain_of_levels {level} (hl : level ∈ levels) {op} (h : level.lookup k = some op) :
    k.Plain ∧ k ≠ .endOfInput := by
  have all : ∀ level ∈ levels, ∀ p ∈ level, p.1.Plain ∧ p.1 ≠ .endOfInput := by
    decide
  obtain ⟨l₁, l₂, rfl, -⟩ := lookup_eq_some_iff.1 h
  exact all _ hl (k, op) (by simp)

lemma quiet_prefixed (s) : g.prefixed.Gives c s (Quiet 0 0 s) := by
  refine .seen rfl ?_
  split
  · refine (Quiet.start s).advance hg.eof (plain_of_unaryOf? ‹_›) fun _ t h =>
      h.bind (hg.unary t) fun _ _ h => .pure (h.map ?_ ?_ ?_)
    · simp [Bound, Expr.Bound]
    · simp [binders, Expr.binders]
    · simp [Lands, Expr.Lands]
  · split
    · refine (Quiet.start s).advance hg.eof (plain_of_stepOf? ‹_›) fun _ t h =>
        h.bind (hg.unary t) fun _ _ h => quiet_assignment (h.map ?_ ?_ ?_)
      · simp [Bound, Update.Bound]
      · simp [binders, Update.binders]
      · simp [Lands, Update.Lands]
    · exact quiet_suffixed hg s

lemma quiet_chain {level} (hl : level ∈ levels) {operand : Parse Expr}
    (ho : ∀ s, operand.Gives c s (Quiet 0 0 s)) : ∀ n {left : Expr} {s : ParseState},
      Quiet 0 0 u left s → (chain level operand n left).Gives c s (Quiet 0 0 u)
  | 0, _, _, _ => .stop _
  | n + 1, left, s, h₀ => by
    refine .seen rfl ?_
    split
    · exact .pure h₀
    · rename_i op hop
      refine h₀.advance hg.eof (plain_of_levels hl hop) fun _ t h => h.bind (ho t) fun _ _ h =>
        quiet_chain hl ho n (h.map ?_ ?_ ?_)
      all_goals cases op
      all_goals simp [Bound, binders, Lands, Connective.join, Expr.Bound,
        Expr.binders, Expr.Lands]

lemma quiet_leveled : ∀ {l : List Level}, l ⊆ levels → ∀ s, (g.leveled l).Gives c s (Quiet 0 0 s)
  | [], _, s => quiet_prefixed hg s
  | _ :: tighter, hl, s =>
    have ht : tighter ⊆ levels := fun _ hx => hl (mem_cons_of_mem _ hx)
    .bind (quiet_leveled ht s) fun _ _ h => .seen rfl
      (quiet_chain hg (hl mem_cons_self) (quiet_leveled ht) _ h)

lemma quiet_assigned (s) : g.assigned.Gives c s (Quiet 0 0 s) := by
  refine .bind (quiet_leveled hg (fun _ h => h) s) fun target t h => .seen rfl ?_
  split
  · exact .pure h
  · rename_i update hup
    obtain ⟨hk, hf⟩ := plain_of_updateOf? hup
    refine h.advance hg.eof hk fun _ t h => h.bind (hg.expression t) fun _ _ h =>
      quiet_assignment (h.map ?_ ?_ ?_)
    all_goals
      rcases hf with rfl | ⟨op, rfl⟩ <;>
      simp [Bound, binders, Lands, Update.Bound, Update.binders, Update.Lands]

lemma quiet_conditional (s) : g.conditional.Gives c s (Quiet 0 0 s) := by
  refine .bind (quiet_assigned hg s) fun e t h => h.accept? (by decide) (fun _ t h =>
    h.bind (hg.expression t) fun _ _ h => h.expect (by decide) fun _ t h =>
      h.bind (hg.expression t) fun _ _ h => .pure (h.map ?_ ?_ ?_)) (.pure h)
  · simp [Bound, Expr.Bound, and_assoc]
  · simp [binders, Expr.binders]
  · simp [Lands, Expr.Lands, and_assoc]

end Grammar

end DynScript

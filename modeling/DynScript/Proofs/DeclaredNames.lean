import DynScript.Proofs.Progress

/-!
# Declared names

Which names a parser can bring into the current scope, whether it succeeds or fails.  Expressions and
statements bring none: what they declare, they declare in scopes of their own, which they leave again.
-/

namespace DynScript

open List Parse

namespace Parse

variable {α β : Type} {c : ParseContext} {N : String → Prop} {p : Parse α} {q : α → Parse β}

/-- From the state `s` to the state `t`, slots with names in `N` have been added to the current scope. -/
def NamesAt (N : String → Prop) (s t : ParseState) : Prop :=
  ∃ new, t.scopes.current.slots = s.scopes.current.slots ++ new ∧ ∀ slot ∈ new, N slot.name

/-- However the parser ends, it has added only slots with names in `N` to the current scope. -/
def Names (c : ParseContext) (N : String → Prop) (p : Parse α) : Prop :=
  ∀ s : ParseState, NamesAt N s (p.run c s).state

/-- However the parser ends, the slots of the current scope are the same. -/
abbrev Steady (c : ParseContext) (p : Parse α) : Prop :=
  Names c (fun _ => False) p

namespace NamesAt

variable {s t u : ParseState}

lemma of_eq (h : t.scopes.current.slots = s.scopes.current.slots) : NamesAt N s t :=
  ⟨[], by rw [h, append_nil], forall_mem_nil _⟩

lemma trans (h : NamesAt N s t) (k : NamesAt N t u) : NamesAt N s u := by
  obtain ⟨new, slots, names⟩ := h
  obtain ⟨new', slots', names'⟩ := k
  refine ⟨new ++ new', by rw [slots', slots, append_assoc], fun slot hs => ?_⟩
  exact (mem_append.1 hs).elim (names slot) (names' slot)

lemma mono {M : String → Prop} (h : NamesAt N s t) (hM : ∀ name, N name → M name) :
    NamesAt M s t := by
  obtain ⟨new, slots, names⟩ := h
  exact ⟨new, slots, fun slot hs => hM _ (names slot hs)⟩

end NamesAt

namespace Names

lemma of_steady (h : Steady c p) : Names c N p :=
  fun s => (h s).mono fun _ => False.elim

lemma bind (hp : Names c N p) (hq : ∀ a, Names c N (q a)) : Names c N (p >>= q) := by
  intro s
  have first := hp s
  rw [run_bind]
  cases hr : p.run c s with
  | ok a t =>
    rw [hr] at first
    exact first.trans (hq a t)
  | error e t =>
    rw [hr] at first
    exact first

lemma of_scopes (h : ∀ s, (p.run c s).state.scopes = s.scopes) : Names c N p :=
  fun s => .of_eq (by rw [h s])

lemma pure (a : α) : Names c N (Pure.pure a : Parse α) :=
  of_scopes fun _ => rfl

lemma map (f : α → β) (h : Names c N p) : Names c N (f <$> p) :=
  h.bind fun a => .pure (f a)

lemma stop (e) : Names c N (stop e : Parse α) :=
  of_scopes fun _ => rfl

lemma fail (fault token) : Names c N (fail fault token : Parse α) :=
  stop _

lemma context : Names c N context :=
  of_scopes fun _ => rfl

lemma rounds : Names c N rounds :=
  of_scopes fun _ => rfl

lemma peek : Names c N peek :=
  of_scopes fun _ => rfl

lemma check (kind) : Names c N (check kind) :=
  of_scopes fun _ => rfl

lemma scopes : Names c N scopes :=
  of_scopes fun _ => rfl

lemma advance : Names c N Parse.advance := by
  refine of_scopes fun s => ?_
  unfold Parse.advance
  dsimp only
  split <;> rfl

lemma accept? (kind) : Names c N (accept? kind) := by
  refine (check kind).bind fun b => ?_
  split
  · exact advance.bind fun _ => .pure _
  · exact .pure _

lemma accept (kind) : Names c N (accept kind) :=
  (accept? kind).bind fun _ => .pure _

lemma expect (kind message) : Names c N (expect kind message) := by
  refine (accept? kind).bind fun o => ?_
  split
  · exact .pure _
  · exact peek.bind fun _ => .fail _ _

/-! ### Scopes -/

lemma resolve {operation : ScopeTable → Except ScopeError α × ScopeTable}
    {h : ∀ t : ScopeTable, t.Onward (operation t).2} {objection : ScopeError → ParseFailure}
    (hn : ∀ t : ScopeTable, ∃ new, (operation t).2.current.slots = t.current.slots ++ new ∧
      ∀ slot ∈ new, N slot.name) : Names c N (Parse.resolve operation h objection) := by
  intro s
  have names := hn s.scopes
  unfold Parse.resolve
  dsimp only
  split <;> rename_i ho <;> rw [ho] at names <;> exact names

lemma declareAs (name token) (constant : Bool) (objection : ScopeError → ParseFailure) :
    Names c (· = name) (declareAs name token constant objection) := by
  refine resolve fun t => ?_
  rw [ScopeTable.define_eq]
  split
  · exact ⟨[], (append_nil _).symm, forall_mem_nil _⟩
  · exact ⟨[_], by rw [ScopeTable.current_setCurrent, Scope.addSlot], by simp⟩

lemma hiddenSlot (name place) : Names c N (hiddenSlot name place) :=
  fun _ => .of_eq rfl

/-- **What is declared in a scope of its own is gone with it.** -/
theorem inScope (body : Parse α) (kind : ScopeKind) (hk : kind.isRoot = false) :
    Names c N (inScope kind body hk) := by
  intro s
  have left {t : ParseState} (h : (s.scopes.enter kind).Onward t.scopes) :
      NamesAt N s (unwind s.scopes.depth t) := by
    refine .of_eq ?_
    simp only [unwind, ScopeTable.unwindTo_of_onward_enter hk h]
    rfl
  have onward := (body.onward c { s with scopes := s.scopes.enter kind }).scopes
  rw [run_inScope]
  split <;> rename_i hr <;> rw [hr] at onward <;> exact left onward

end Names

/-- **Parsers that are put together without declaring a name are steady.** -/
theorem Built.steady {n : Nat} {d : Bool} {stance : Stance} {p q : Parse α}
    (h : Built 0 d stance n p q) (hd : d = false) : Steady c p := by
  induction h with
  | le _ _ ih | opened _ ih | ahead _ ih => exact ih hd
  | pure a => exact .pure a
  | fail fault token => exact .fail fault token
  | exhausted => exact .stop _
  | bind _ _ ih ihf | after _ _ ih ihf => exact .bind (ih hd) fun a => ihf a hd
  | check _ => exact .check _
  | accept? _ _ _ ih ihn =>
    refine .bind (.accept? _) fun o => ?_
    cases o with
    | none => exact ihn hd
    | some t => exact ih t hd
  | acceptVar _ _ ih ihr =>
    refine .bind (.accept _) fun b => ?_
    split
    · exact ih hd
    · exact ihr hd
  | lookAt _ _ ih _ | lookFor _ _ ih | lookAhead _ ih => exact .bind .peek fun t => ih t hd
  | advance _ ih => exact .bind .advance fun t => ih t hd
  | failAfterNext fault => exact .bind .advance fun _ => .fail _ _
  | natives _ _ ih => exact .bind .context fun c => ih c c rfl hd
  | rounds hn _ ih =>
    exact .bind .rounds fun i => ih i i (Nat.le_trans hn (Nat.zero_le i)) (Nat.le_refl i) hd
  | scopes => exact .scopes
  | resolve keeps =>
    exact .resolve fun t => ⟨[], by rw [keeps hd t, append_nil], forall_mem_nil _⟩
  | hiddenSlot name place => exact .hiddenSlot name place
  | inScope _ _ | block _ _ _ _ _ _ => exact .inScope _ _ _
  | granted | recovering _ _ => cases hd

end Parse

/-! ### Declarations -/

namespace Grammar

variable {c : ParseContext} {g : Grammar}

lemma names_expect {α : Type} {f : Token → Parse α} (hf : ∀ t, Names c (· = t.lexeme) (f t))
    (message) (s : ParseState) :
    NamesAt (fun name => ∃ t ∈ s.rest.head?, t.kind = .identifier ∧ name = t.lexeme) s
      ((expect .identifier message >>= f).run c s).state := by
  rw [run_bind]
  cases hr : (expect .identifier message).run c s with
  | ok t u =>
    obtain ⟨hk, takes⟩ := takes_of_expect hr
    have same : u.scopes = s.scopes := by rw [takes.eq]
    refine NamesAt.trans (.of_eq (by rw [same])) ((hf t u).mono fun name hn => ?_)
    exact ⟨t, by rw [takes.rest]; rfl, hk, hn⟩
  | error e u =>
    have steady : Steady c (expect .identifier message) := .expect _ _
    have names := steady s
    rw [hr] at names
    exact names.mono fun _ => False.elim

lemma names_varDeclaration (hg : g.Built 0 0 g) (s : ParseState) :
    NamesAt (fun name => ∃ t ∈ s.rest.head?, t.kind = .identifier ∧ name = t.lexeme) s
      (g.varDeclaration.run c s).state := by
  refine names_expect (fun name => .bind (.declareAs _ _ _ _) fun _ => .bind (.of_steady ?_) fun _ =>
    .bind (.expect _ _) fun _ => .pure _) _ s
  exact (hg.initialValue name).steady rfl

lemma names_letDeclaration (hg : g.Built 0 0 g) (s : ParseState) :
    NamesAt (fun name => ∃ t ∈ s.rest.head?, t.kind = .identifier ∧ name = t.lexeme) s
      (g.letDeclaration.run c s).state :=
  names_expect (fun _ => .bind (.expect _ _) fun _ => .bind (.of_steady (hg.conditional'.steady rfl))
    fun _ => .bind (.declareAs _ _ _ _) fun _ => .bind (.expect _ _) fun _ => .pure _) _ s

lemma names_functionDeclaration (s : ParseState) :
    NamesAt (fun name => ∃ t ∈ s.rest.head?, t.kind = .identifier ∧ name = t.lexeme) s
      (g.functionDeclaration.run c s).state :=
  names_expect (fun _ => .bind (.declareAs _ _ _ _) fun _ => .bind (.inScope _ _ _) fun _ =>
    .pure _) _ s

/-- The names that a declaration in front of some tokens can bring: that of the second one. -/
def SecondName (tokens : List Token) (name : String) : Prop :=
  ∃ first t rest, tokens = first :: t :: rest ∧ t.kind = .identifier ∧ name = t.lexeme

lemma names_behind {α : Type} {p : Parse α} (hp : ∀ s, NamesAt (fun name => ∃ t ∈ s.rest.head?,
    t.kind = .identifier ∧ name = t.lexeme) s (p.run c s).state) (f : α → Option Stmt)
    (s : ParseState) :
    NamesAt (SecondName s.rest) s ((advance >>= fun _ => f <$> p).run c s).state := by
  have map (s : ParseState) : ((f <$> p).run c s).state = (p.run c s).state := by
    rw [run_map]
    cases p.run c s <;> rfl
  cases hr : s.rest with
  | nil =>
    have stays : advance.run c s = .ok s.last s := by simp [advance, hr]
    rw [run_bind, stays, ParseResult.andThen_ok, map]
    refine (hp s).mono fun name hn => ?_
    rw [hr] at hn
    obtain ⟨t, ⟨⟩, -⟩ := hn
  | cons first rest =>
    rw [run_bind, run_advance_cons hr, ParseResult.andThen_ok, map]
    refine NamesAt.trans (t := { s with last := first, rest := rest }) (.of_eq rfl)
      ((hp _).mono fun name hn => ?_)
    obtain ⟨t, ht, hk, he⟩ := hn
    obtain ⟨more, rfl⟩ := head?_eq_some_iff.1 ht
    exact ⟨first, t, more, rfl, hk, he⟩

lemma names_attempt (hg : g.Built 0 0 g) (s : ParseState) :
    NamesAt (SecondName s.rest) s (g.attempt.run c s).state := by
  unfold attempt
  rw [run_bind, run_peek, ParseResult.andThen_ok]
  have steady {p : Parse (Option Stmt)} (hp : Steady c p) :
      NamesAt (SecondName s.rest) s (p.run c s).state := Names.of_steady hp s
  split
  · exact names_behind (names_varDeclaration hg) some s
  · exact names_behind (names_letDeclaration hg) some s
  · exact names_behind names_functionDeclaration some s
  · exact steady (.bind .advance fun _ => .map _ ((Built.labelDeclaration (n := 0)).steady rfl))
  · exact steady (.bind .advance fun _ => .fail _ _)
  · exact steady (.map _ (hg.statementRule.steady rfl))

/-- **A declaration brings at most the name in second place**, whether or not it is in error. -/
theorem names_declaration (n : Nat) (s : ParseState) :
    NamesAt (SecondName s.rest) s ((unrolled n).declaration.run c s).state := by
  cases n with
  | zero => exact .of_eq rfl
  | succ n =>
    have names := names_attempt (c := c) (built_self 0 n) s
    have onward := (unrolled n).attempt.onward c s
    change NamesAt _ _ ((recovering (unrolled n).attempt).run c s).state
    rw [run_recovering]
    cases hr : (unrolled n).attempt.run c s with
    | ok a t =>
      rw [hr] at names
      exact names
    | error e t =>
      rw [hr] at names onward
      cases e with
      | error e =>
        have kept : NamesAt (SecondName s.rest) s (recovered s.scopes.depth e t) :=
          names.trans (.of_eq (congrArg (·.current.slots) (scopes_recovered onward e)))
        dsimp only [recovery]
        split <;> exact kept
      | canceled | scopes | exhausted => exact names

end Grammar

end DynScript

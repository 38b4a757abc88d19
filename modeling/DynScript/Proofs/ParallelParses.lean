import DynScript.Proofs.ScopeLikeness

/-!
# Parallel parses

Two parses run in parallel when they read like tokens with like scope tables.  The second one may have
more tokens to come than the first.
-/

namespace DynScript

open List Parse

/-- Like tokens: the same except for their places, and entirely the same in full parses. -/
structure Token.Like (c : Coding) (full : Prop) (t t' : Token) : Prop where
  kind : t.kind = t'.kind
  lexeme : t.lexeme = t'.lexeme
  literal : t.literal = t'.literal
  place : c.place t.location t'.location
  name : t.kind = .identifier → c.name t.lexeme
  same : full → t = t'

lemma Token.Like.location_eq {c} {full : Prop} {t t' : Token} (h : t.Like c full t') (hf : full) :
    some t.location = some t'.location := by
  rw [h.same hf]

/-- Two parses in parallel: their contexts, and the tokens that only the second one has to come. -/
structure Parallel extends Overlay where
  full : Prop
  first : ParseContext
  second : ParseContext
  more : List Token
  eof_kind : full ∨ first.eof.kind = .endOfInput
  eof_kind_eq : first.eof.kind = second.eof.kind
  natives : first.natives = second.natives
  allowed : ∀ name f, first.natives.lookup name = some f → coding.native f
  bound_le : first.bound ≤ second.bound
  otherwise : ∀ t ∈ more.head?, t.kind ≠ .kwElse
  full_eof : full → first.eof.Like coding full second.eof
  full_bound : full → first.bound = second.bound
  full_strict : full → first.strict = second.strict
  full_more : full → more = []
  full_improper : full → ¬ toOverlay.Proper

namespace Parallel

lemma otherwise_nil : ∀ t ∈ ([] : List Token).head?, t.kind ≠ .kwElse := by
  intro t ht
  cases ht

variable (P : Parallel)

/-- Tokens that are read alike. -/
abbrev Tokens (t t' : Token) : Prop :=
  t.Like P.coding P.full t'

/-- What two parses look at next: like tokens, or the ends of the input, wherever they are. -/
structure Next (t t' : Token) : Prop where
  kind : t.kind = t'.kind
  tokens : t.kind ≠ .endOfInput → P.Tokens t t'
  same : P.full → t = t'

/-- Like states of two parses.  The token read last counts only where it can be given again. -/
structure States (s s' : ParseState) : Prop where
  last : P.full ∨ s.rest = [] ∧ P.more = [] → P.Tokens s.last s'.last
  rest : ∃ own, s'.rest = own ++ P.more ∧ Forall₂ P.Tokens s.rest own
  scopes : s.scopes.Like P.toOverlay s'.scopes
  errors : s.errors = s'.errors

/-- A state of the first parse that is of interest. -/
structure Good (s : ParseState) : Prop where
  within : P.Within s.scopes
  errors : P.full ∨ s.errors = []

/-- The first parse is not at its end, or the second one is at its end with it. -/
def Ahead (s : ParseState) : Prop :=
  s.rest ≠ [] ∨ P.more = []

end Parallel

/-- An outcome with an error. -/
def ParseResult.Broken {α : Type} : ParseResult α → Prop
  | .ok _ s => s.errors ≠ []
  | .error _ _ => True

namespace Parallel

variable {α β γ δ : Type}

/-- What the second parse comes to, given the first. -/
def Outcome (P : Parallel) (lax : Prop) (R : α → β → Prop) (r : ParseResult α)
    (r' : ParseResult β) : Prop :=
  match r with
  | .ok a t => P.Good t → (lax → P.Ahead t) →
    ¬ P.full ∧ r'.Broken ∨ ∃ b t', r' = .ok b t' ∧ R a b ∧ P.States t t'
  | .error e t => P.full → P.Within t.scopes → ∃ t', r' = .error e t' ∧ P.States t t'

/-- The parser `q` does in the second parse what `p` does in the first, from like states; inside of
some block if `deep` is asked for. -/
def Follows (P : Parallel) (deep lax : Prop) (R : α → β → Prop) (p : Parse α) (q : Parse β) : Prop :=
  ∀ s s', P.States s s' → (deep → s.scopes.inner ≠ []) →
    P.Outcome lax R (p.run P.first s) (q.run P.second s')

/-- A parser that succeeds in the first parse only in front of a token. -/
def Consumes (P : Parallel) (p : Parse α) : Prop :=
  ∀ s a t, p.run P.first s = .ok a t → s.rest ≠ []

/-! ### Going back -/

variable {P : Parallel} {s t u : ParseState}

lemma Good.of_onward (h : s.Onward t) (ht : P.Good t) : P.Good s where
  within := ht.within.of_onward h.scopes
  errors := ht.errors.imp_right fun he => by
    have before := h.errors
    rw [he] at before
    exact prefix_nil.1 before

lemma Ahead.of_onward (h : s.Onward t) (ht : P.Ahead t) : P.Ahead s := by
  refine ht.imp_left fun hr hs => hr ?_
  exact suffix_nil.1 (hs ▸ h.rest)

lemma inner_of_onward (h : s.Onward t) (hs : s.scopes.inner ≠ []) : t.scopes.inner ≠ [] := by
  rcases Overlay.Within.globals_of_onward h.scopes with ⟨hi, -⟩ | ⟨-, ht, -⟩
  · exact absurd hi hs
  · exact ht

lemma errors_ne_nil_of_onward (h : s.Onward t) (hs : s.errors ≠ []) : t.errors ≠ [] := by
  intro ht
  exact hs (prefix_nil.1 (ht ▸ h.errors))

lemma broken_bind {c} {p : Parse α} {q : α → Parse β} (h : (p.run c s).Broken) :
    ((p >>= q).run c s).Broken := by
  rw [run_bind]
  cases hp : p.run c s with
  | error e t => trivial
  | ok a t =>
    rw [hp] at h
    rw [ParseResult.andThen_ok]
    have onward := (q a).onward c t
    cases hq : (q a).run c t with
    | error e u => trivial
    | ok b u =>
      rw [hq] at onward
      exact errors_ne_nil_of_onward onward h

lemma Ahead.of_full (h : P.full) (s) : P.Ahead s :=
  .inr (P.full_more h)

/-! ### Consuming -/

namespace Consumes

variable {p : Parse α} {q : α → Parse β}

lemma left (h : P.Consumes p) : P.Consumes (p >>= q) := by
  intro s b u hr
  simp only [run_bind, ParseResult.andThen_eq_ok] at hr
  obtain ⟨a, t, ha, -⟩ := hr
  exact h s a t ha

lemma right (h : ∀ a, P.Consumes (q a)) : P.Consumes (p >>= q) := by
  intro s b u hr hs
  simp only [run_bind, ParseResult.andThen_eq_ok] at hr
  obtain ⟨a, t, ha, hb⟩ := hr
  refine h a t b u hb (suffix_nil.1 ?_)
  exact hs ▸ (onward_of_ok ha).rest

lemma expect (kind message) : P.Consumes (Parse.expect kind message) := by
  intro s t u h hs
  have taken := (takes_of_expect h).2.rest
  rw [hs] at taken
  cases taken

lemma fail (fault token) : P.Consumes (fail fault token : Parse α) := by
  intro s a u hr
  rw [run_fail] at hr
  cases hr

lemma map {f : α → β} (h : P.Consumes p) : P.Consumes (f <$> p) := by
  intro s b u hr
  rw [run_map, ParseResult.andThen_eq_ok] at hr
  obtain ⟨a, t, ha, -⟩ := hr
  exact h s a t ha

lemma inScope {kind : ScopeKind} {body : Parse α} {hk : kind.isRoot = false}
    (h : P.Consumes body) : P.Consumes (inScope kind body hk) := by
  intro s a u hr
  obtain ⟨t, ht, -⟩ := ok_of_inScope hr
  exact h { s with scopes := s.scopes.enter kind } a t ht

end Consumes

/-! ### Combinators -/

namespace Follows

variable {deep lax lax' : Prop} {R : α → β → Prop} {S : γ → δ → Prop} {p : Parse α} {q : Parse β}

lemma pure {a : α} {b : β} (h : R a b) : P.Follows deep lax R (Pure.pure a) (Pure.pure b) :=
  fun _ _ hs _ _ _ => .inr ⟨b, _, rfl, h, hs⟩

lemma weaken (h : P.Follows False lax R p q) (hl : lax → lax') : P.Follows deep lax' R p q := by
  intro s s' hs _
  have := h s s' hs False.elim
  unfold Outcome at this ⊢
  split
  · rename_i hr
    rw [hr] at this
    exact fun hg ha => this hg fun hx => ha (hl hx)
  · rename_i hr
    rw [hr] at this
    exact this

lemma bind {f : α → Parse γ} {g : β → Parse δ} (h : P.Follows deep lax R p q)
    (k : ∀ a b, R a b → P.Follows deep lax' S (f a) (g b))
    (hl : lax → lax' ∨ ∀ a, P.Consumes (f a)) : P.Follows deep lax' S (p >>= f) (q >>= g) := by
  intro s s' hs hd
  have hp := h s s' hs hd
  rw [run_bind]
  cases hr : p.run P.first s with
  | error e t =>
    rw [hr] at hp
    intro hf hw
    obtain ⟨t', he, ht⟩ := hp hf hw
    exact ⟨t', by rw [run_bind, he]; rfl, ht⟩
  | ok a t =>
    rw [hr] at hp
    have onward := onward_of_ok hr
    have deeper : deep → t.scopes.inner ≠ [] := fun hx => inner_of_onward onward (hd hx)
    rw [ParseResult.andThen_ok]
    have next := (f a).onward P.first t
    cases hq : (f a).run P.first t with
    | error e u =>
      rw [hq] at next
      intro hf hw
      have good : P.Good t := ⟨hw.of_onward next.scopes, .inl hf⟩
      rcases hp good fun _ => .of_full hf t with ⟨hn, -⟩ | ⟨b, t', he, hab, ht⟩
      · exact absurd hf hn
      · have := k a b hab t t' ht deeper
        rw [hq] at this
        obtain ⟨u', hu, huu⟩ := this hf hw
        exact ⟨u', by rw [run_bind, he]; exact hu, huu⟩
    | ok x u =>
      rw [hq] at next
      intro hg ha
      have ahead : lax → P.Ahead t := fun hx =>
        (hl hx).elim (fun hx => (ha hx).of_onward next) fun hc => .inl (hc a t x u hq)
      rcases hp (hg.of_onward next) ahead with ⟨hn, hb⟩ | ⟨b, t', he, hab, ht⟩
      · exact .inl ⟨hn, broken_bind hb⟩
      · have := k a b hab t t' ht deeper
        rw [hq] at this
        rw [run_bind, he]
        exact this hg ha

lemma bindLax {f : α → Parse γ} {g : β → Parse δ} (h : P.Follows deep True R p q)
    (k : ∀ a b, R a b → P.Follows deep True S (f a) (g b)) :
    P.Follows deep True S (p >>= f) (q >>= g) :=
  h.bind k fun _ => .inl trivial

lemma map {f : α → γ} {g : β → δ} (h : P.Follows deep lax R p q)
    (k : ∀ a b, R a b → S (f a) (g b)) : P.Follows deep lax S (f <$> p) (g <$> q) :=
  (h.bind (fun a b hab => .pure (k a b hab)) .inl : P.Follows deep lax S
    (p >>= fun a => Pure.pure (f a)) (q >>= fun b => Pure.pure (g b)))

lemma mono {S : α → β → Prop} (h : P.Follows deep lax R p q) (k : ∀ a b, R a b → S a b) :
    P.Follows deep lax S p q := by
  intro s s' hs hd
  have outcome := h s s' hs hd
  cases hr : p.run P.first s with
  | error e t => rwa [hr] at outcome
  | ok a t =>
    rw [hr] at outcome
    intro good ahead
    rcases outcome good ahead with broken | ⟨b, t', he, hab, ht⟩
    · exact .inl broken
    · exact .inr ⟨b, t', he, k a b hab, ht⟩

lemma stop_of_not_full (h : ¬ P.full) (e q) : P.Follows deep lax R (Parse.stop e : Parse α) q :=
  fun _ _ _ _ hf => absurd hf h

lemma stop (e) : P.Follows deep lax R (Parse.stop e : Parse α) (Parse.stop e : Parse β) :=
  fun _ s' hs _ _ _ => ⟨s', rfl, hs⟩

variable {t' token token' : Token}

lemma fail {fault fault'} (hf : P.full → fault = fault') {t} (ht : P.full → t = t') :
    P.Follows deep lax R (fail fault t : Parse α)
      (fail fault' t' : Parse β) := by
  by_cases hfull : P.full
  · rw [hf hfull, ht hfull]
    exact .stop _
  · exact stop_of_not_full hfull _ _

/-! ### Tokens -/

lemma states_cases {s s'} (hs : P.States s s') :
    s.rest = [] ∧ s'.rest = P.more ∨ ∃ t t' rest rest', s.rest = t :: rest ∧ s'.rest = t' :: rest' ∧
      P.Tokens t t' ∧ P.States { s with last := t, rest := rest }
        { s' with last := t', rest := rest' } := by
  obtain ⟨own, he, hr⟩ := hs.rest
  generalize hl : s.rest = l at hr
  cases hr with
  | nil => exact .inl ⟨rfl, he⟩
  | @cons t t' rest rest' ht hr =>
    exact .inr ⟨t, t', rest, rest' ++ P.more, rfl, he, ht, fun _ => ht, ⟨rest', rfl, hr⟩,
      hs.scopes, hs.errors⟩

lemma peek : P.Follows deep True P.Next peek peek := by
  intro s s' hs _ _ ha
  refine .inr ⟨_, s', run_peek, ?_, hs⟩
  rcases states_cases hs with ⟨hr, hr'⟩ | ⟨t, t', rest, rest', hr, hr', ht, -⟩
  · rw [hr, hr', (ha trivial).resolve_left (· hr)]
    exact ⟨P.eof_kind_eq, fun hk => P.full_eof (P.eof_kind.resolve_right hk),
      fun full => (P.full_eof full).same full⟩
  · rw [hr, hr']
    exact ⟨ht.kind, fun _ => ht, ht.same⟩

lemma check (kind) (hk : lax ∨ kind = .kwElse) :
    P.Follows deep lax Eq (check kind) (check kind) := by
  intro s s' hs _ _ ha
  refine .inr ⟨_, s', run_check kind, ?_, hs⟩
  rcases states_cases hs with ⟨hr, hr'⟩ | ⟨t, t', rest, rest', hr, hr', ht, -⟩
  · rw [hr, hr']
    rcases hk with hl | rfl
    · rw [(ha hl).resolve_left (· hr)]
    · have none := P.otherwise
      cases hm : P.more.head? with
      | none => rfl
      | some x => simpa [hm] using none x hm
  · simp [hr, hr', ht.kind]

lemma atEnd : P.Follows deep True Eq atEnd atEnd := by
  intro s s' hs _ _ ha
  refine .inr ⟨_, s', run_atEnd, ?_, hs⟩
  rcases states_cases hs with ⟨hr, hr'⟩ | ⟨t, t', rest, rest', hr, hr', -⟩
  · rw [hr, hr', (ha trivial).resolve_left (· hr)]
  · rw [hr, hr']
    rfl

lemma advance : P.Follows deep True P.Tokens Parse.advance Parse.advance := by
  intro s s' hs _
  rcases states_cases hs with ⟨hr, hr'⟩ | ⟨t, t', rest, rest', hr, hr', ht, hn⟩
  · have run : Parse.advance.run P.first s = .ok s.last s := by simp [Parse.advance, hr]
    rw [run]
    intro _ ha
    have ended : P.more = [] := (ha trivial).resolve_left (· hr)
    have run' : Parse.advance.run P.second s' = .ok s'.last s' := by
      simp [Parse.advance, hr', ended]
    exact .inr ⟨_, _, run', hs.last (.inr ⟨hr, ended⟩), hs⟩
  · rw [run_advance_cons hr, run_advance_cons hr']
    exact fun _ _ => .inr ⟨_, _, rfl, ht, hn⟩

lemma accept? (kind) (hk : lax ∨ kind = .kwElse) :
    P.Follows deep lax (Option.Rel P.Tokens) (accept? kind) (accept? kind) := by
  intro s s' hs _
  rw [run_accept?, run_accept?]
  rcases states_cases hs with ⟨hr, hr'⟩ | ⟨t, t', rest, rest', hr, hr', ht, hn⟩
  · rw [hr, hr']
    intro _ ha
    refine .inr ⟨none, s', ?_, .none, hs⟩
    cases hm : P.more with
    | nil => rfl
    | cons x more =>
      have other : x.kind ≠ kind := by
        rcases hk with hl | rfl
        · exact absurd ((ha hl).resolve_left (· hr)) (by simp [hm])
        · exact P.otherwise x (by simp [hm])
      simp [other]
  · simp only [hr, hr', ← ht.kind]
    split
    · exact fun _ _ => .inr ⟨_, _, rfl, .some ht, hn⟩
    · exact fun _ _ => .inr ⟨_, _, rfl, .none, hs⟩

lemma accept (kind) (hk : lax ∨ kind = .kwElse) :
    P.Follows deep lax Eq (accept kind) (accept kind) :=
  (accept? kind hk).bind (fun _ _ h => .pure (by cases h <;> rfl)) .inl

lemma expectAs {kind message} {R : Token → Token → Prop}
    (h : ∀ t t', P.Tokens t t' → t.kind = kind → R t t') :
    P.Follows deep lax R (Parse.expect kind message) (Parse.expect kind message) := by
  have lax : P.Follows deep True P.Tokens (Parse.expect kind message)
      (Parse.expect kind message) := by
    refine (accept? kind (.inl trivial)).bindLax fun o o' ho => ?_
    cases ho with
    | some ht => exact .pure ht
    | none => exact peek.bindLax fun t t' ht => .fail (fun _ => rfl) ht.same
  intro s s' hs hd
  have failing := lax s s' hs hd
  cases he : (Parse.expect kind message).run P.first s with
  | error e u =>
    rw [he] at failing
    exact failing
  | ok x u =>
    obtain ⟨hx, taken⟩ := takes_of_expect he
    rcases states_cases hs with ⟨hr, -⟩ | ⟨t, t', rest, rest', hr, hr', ht, hn⟩
    · exact absurd hr (Consumes.expect kind message s x u he)
    · obtain ⟨rfl, rfl⟩ := List.cons.inj (hr.symm.trans taken.rest)
      rw [run_expect_cons hr' (ht.kind ▸ hx), taken.eq]
      exact fun _ _ => .inr ⟨_, _, rfl, h t t' ht hx, hn⟩

lemma expect (kind message) :
    P.Follows deep lax P.Tokens (Parse.expect kind message) (Parse.expect kind message) :=
  expectAs fun _ _ ht _ => ht

/-- Like tokens that are names. -/
def Names (P : Parallel) (t t' : Token) : Prop :=
  P.Tokens t t' ∧ t.kind = .identifier

lemma name (message) : P.Follows deep lax (Names P)
    (Parse.expect .identifier message) (Parse.expect .identifier message) :=
  expectAs fun _ _ => .intro

lemma bindExpect {kind message} {f : α → Token → Parse γ} {g : β → Token → Parse δ}
    (h : P.Follows deep True R p q)
    (k : ∀ a b, R a b → ∀ t t', P.Tokens t t' → P.Follows deep lax S (f a t) (g b t')) :
    P.Follows deep lax S (p >>= fun a => Parse.expect kind message >>= f a)
      (q >>= fun b => Parse.expect kind message >>= g b) :=
  h.bind (fun a b hab => (expect kind message).bind (k a b hab) .inl)
    fun _ => .inr fun _ => (Consumes.expect kind message).left

/-! ### What stays the same -/

/-- Rounds enough for the second parse. -/
def Rounds (P : Parallel) (n n' : Nat) : Prop :=
  n ≤ n' ∧ (P.full → n = n')

lemma Rounds.pred {n n' : Nat} (h : Rounds P (n + 1) (n' + 1)) : Rounds P n n' :=
  ⟨Nat.le_of_succ_le_succ h.1, fun full => Nat.succ.inj (h.2 full)⟩

lemma exhausted {n' : Nat} (hn : Rounds P 0 n') {q : Nat → Parse β}
    (hq : q 0 = Parse.stop .exhausted) :
    P.Follows deep lax R (Parse.stop .exhausted : Parse α) (q n') := by
  by_cases full : P.full
  · rw [← hn.2 full, hq]
    exact .stop _
  · exact stop_of_not_full full _ _

lemma rounds : P.Follows deep lax (Rounds P) rounds rounds :=
  fun _ s' hs _ _ _ => .inr ⟨_, s', run_rounds, ⟨P.bound_le, P.full_bound⟩, hs⟩

lemma context : P.Follows deep lax (fun c c' => c = P.first ∧ c' = P.second) context
    context :=
  fun _ s' hs _ _ _ => .inr ⟨_, s', run_context, ⟨rfl, rfl⟩, hs⟩

lemma scopes : P.Follows deep lax (fun t t' => t.Like P.toOverlay t' ∧ P.Within t) scopes
    scopes :=
  fun _ s' hs _ hg _ => .inr ⟨_, s', run_scopes, ⟨hs.scopes, hg.within⟩, hs⟩

lemma currentSlots : P.Follows True lax (Forall₂ P.coding.slot) currentSlots
    currentSlots := by
  intro s s' hs hd _ _
  have current := hs.scopes.current
  have inner : s.scopes.inner.isEmpty = false := by simpa using hd trivial
  rw [inner] at current
  exact .inr ⟨_, s', run_currentSlots, current.slots_inner, hs⟩

/-! ### Scopes -/

lemma resolve {f : ScopeTable → Except ScopeError α × ScopeTable}
    {g : ScopeTable → Except ScopeError β × ScopeTable} {hf : ∀ t : ScopeTable, t.Onward (f t).2}
    {hg : ∀ t : ScopeTable, t.Onward (g t).2} {objection objection' : ScopeError → ParseFailure}
    (ho : P.full → objection = objection') {location location'} (hl : P.full → location = location')
    (h : ∀ t t' : ScopeTable, t.Like P.toOverlay t' → (deep → t.inner ≠ []) → P.Within (f t).2 →
      P.toOverlay.Outcome R (ScopeTable.Like.SameObjection location location') (f t) (g t')) :
    P.Follows deep lax R (Parse.resolve f hf objection) (Parse.resolve g hg objection') := by
  intro s s' hs hd
  have outcome := h s.scopes s'.scopes hs.scopes hd
  simp only [Parse.resolve]
  rcases hx : f s.scopes with ⟨x, t⟩
  rw [hx] at outcome
  cases x with
  | ok a =>
    dsimp only
    intro good _
    have outcome := outcome good.within
    generalize g s'.scopes = y at outcome ⊢
    cases outcome with
    | ok hab ht => exact .inr ⟨_, _, rfl, hab, hs.last, hs.rest, ht, hs.errors⟩
    | refused proper => exact .inl ⟨fun full => P.full_improper full proper, trivial⟩
  | error e =>
    intro full within
    have outcome := outcome within
    generalize g s'.scopes = y at outcome ⊢
    cases outcome with
    | error he htt =>
      obtain rfl := he (hl full)
      obtain rfl := ho full
      exact ⟨_, rfl, hs.last, hs.rest, htt, hs.errors⟩

lemma declareAs {name} (ht : P.Tokens token token') (hn : P.coding.name name) (constant : Bool)
    {objection objection' : ScopeError → ParseFailure} (ho : P.full → objection = objection') :
    P.Follows deep lax (fun s s' => P.coding.slot s s' ∧ s.constant = constant)
      (declareAs name token constant objection)
      (declareAs name token' constant objection') := by
  refine resolve ho ht.location_eq fun t t' htt _ within => htt.define hn (.some ht.place) ?_
  have next : (t.define name (some token.location) constant).2.nextSlot = t.nextSlot + 1 := by
    rw [ScopeTable.define_eq]
    split <;> simp
  have := within.slots
  omega

lemma declare (ht : Names P token token') (constant : Bool) :
    P.Follows deep lax (fun s s' => P.coding.slot s s' ∧ s.constant = constant)
      (Parse.declare token constant) (Parse.declare token' constant) := by
  unfold Parse.declare
  rw [← ht.1.lexeme]
  exact declareAs ht.1 (ht.1.name ht.2) constant fun full => by rw [ht.1.same full]

lemma hiddenSlot {place place'} (hp : P.coding.place place place') :
    P.Follows deep lax P.coding.hidden (hiddenSlot "switch" place)
      (hiddenSlot "switch" place') := by
  intro s s' hs _ good _
  obtain ⟨slot, table⟩ := hs.scopes.newSlot (.some hp) good.within.slots
  exact .inr ⟨_, _, rfl, slot, hs.last, hs.rest, table, hs.errors⟩

lemma declareOwn {name} (ht : P.Tokens token token') (hn : P.coding.name name) :
    P.Follows deep lax (fun s s' => P.coding.slot s s' ∧ s.constant = false)
      (declareOwn name token) (declareOwn name token') :=
  declareAs ht hn false fun _ => rfl

lemma reserve (kind) :
    P.Follows True lax P.coding.label (reserve kind) (reserve kind) := by
  have nowhere : P.full → (none : Option Location) = none := fun _ => rfl
  refine (resolve (R := LabelEntry.Like P.toOverlay) (fun _ => rfl) nowhere ?_).bind
    (fun _ _ he => .pure he.label) .inl
  intro t t' htt deep within
  have inner : t.inner.isEmpty = false := by simpa using deep trivial
  refine htt.defineLabel (by simp [inner, Overlay.extraAt]) ?_
  have next : (t.reserve kind).2.nextLabel = t.nextLabel + 1 := by
    rw [ScopeTable.reserve, ScopeTable.defineLabel_eq]
    split <;> simp
  have := within.labels
  omega

lemma placeLabel {name name'} (ht : P.Tokens name name') :
    P.Follows deep lax P.coding.label (placeLabel name)
      (placeLabel name') := by
  have named : P.full → redeclared name = redeclared name' := fun full => by rw [ht.same full]
  refine (resolve (R := LabelEntry.Like P.toOverlay) named ht.location_eq ?_).bind
    (fun _ _ he => .pure he.label) .inl
  intro t t' htt _ within
  rw [← ht.lexeme]
  refine htt.place (fun hx => ?_) fun hn => ?_
  · -- A label that only the second table has is not placed in the first one.
    have onward := t.onward_place name.lexeme (some name.location)
    rcases Overlay.Within.globals_of_onward onward with ⟨hi, hi'⟩ | ⟨hi, -⟩
    · have known := t.isSome_label?_place name.lexeme (some name.location)
      rw [ScopeTable.current, hi', headD_nil, within.clear] at known
      · cases known
      · simpa [hi, Overlay.extraAt] using hx
    · have inner : t.inner.isEmpty = false := by simpa using hi
      simp [inner, Overlay.extraAt] at hx
  · have next : (t.place name.lexeme (some name.location)).2.nextLabel = t.nextLabel + 1 := by
      rw [ScopeTable.place, hn]
      dsimp only
      rw [ScopeTable.defineLabel_eq]
      split <;> simp
    have := within.labels
    omega

lemma states_unwind {kind : ScopeKind} (hk : kind.isRoot = false) {s s' t t'} (hs : P.States s s')
    (ht : P.States t t') (h : ParseState.Onward { s with scopes := s.scopes.enter kind } t)
    (h' : ParseState.Onward { s' with scopes := s'.scopes.enter kind } t') :
    P.States (unwind s.scopes.depth t) (unwind s'.scopes.depth t') := by
  refine ⟨ht.last, ht.rest, ?_, ht.errors⟩
  simp only [unwind, ScopeTable.unwindTo_of_onward_enter hk h.scopes,
    ScopeTable.unwindTo_of_onward_enter hk h'.scopes]
  exact hs.scopes.leave ht.scopes

lemma within_of_unwind {kind : ScopeKind} (hk : kind.isRoot = false) {s t : ParseState}
    (h : ParseState.Onward { s with scopes := s.scopes.enter kind } t)
    (hw : P.Within (unwind s.scopes.depth t).scopes) : P.Within t.scopes := by
  have globals : t.scopes.globals = s.scopes.globals := by
    rcases Overlay.Within.globals_of_onward h.scopes with ⟨hi, -⟩ | ⟨-, -, hg⟩
    · cases hi
    · exact hg
  simp only [unwind, ScopeTable.unwindTo_of_onward_enter hk h.scopes] at hw
  exact ⟨hw.slots, hw.labels, fun name hn => globals ▸ hw.clear name hn⟩

lemma inScope {kind : ScopeKind} {hk : kind.isRoot = false} (h : P.Follows True lax R p q) :
    P.Follows deep lax R (inScope kind p hk) (inScope kind q hk) := by
  intro s s' hs _
  have inside := h { s with scopes := s.scopes.enter kind }
    { s' with scopes := s'.scopes.enter kind }
    ⟨hs.last, hs.rest, hs.scopes.enter kind, hs.errors⟩ fun _ => cons_ne_nil _ _
  have onward := p.onward P.first { s with scopes := s.scopes.enter kind }
  have onward' := q.onward P.second { s' with scopes := s'.scopes.enter kind }
  rw [run_inScope, run_inScope]
  cases hp : p.run P.first { s with scopes := s.scopes.enter kind } with
  | ok a t =>
    rw [hp] at inside onward
    intro good ahead
    have within := within_of_unwind hk onward good.within
    rcases inside ⟨within, good.errors⟩ ahead with ⟨hn, hb⟩ | ⟨b, t', he, hab, ht⟩
    · refine .inl ⟨hn, ?_⟩
      generalize q.run _ _ = r at hb ⊢
      cases r <;> exact hb
    · rw [he] at onward' ⊢
      exact .inr ⟨b, _, rfl, hab, states_unwind hk hs ht onward onward'⟩
  | error e t =>
    rw [hp] at inside onward
    intro full within
    obtain ⟨t', he, ht⟩ := inside full (within_of_unwind hk onward within)
    rw [he] at onward' ⊢
    exact ⟨_, rfl, states_unwind hk hs ht onward onward'⟩

/-! ### Loops -/

lemma commaSeparated (h : P.Follows deep True R p q) : ∀ {n n' : Nat}, Rounds P n n' →
    P.Follows deep True (Forall₂ R) (commaSeparated p n) (commaSeparated q n')
  | 0, _, hn => exhausted hn rfl
  | n + 1, 0, hn => absurd hn.1 (by omega)
  | n + 1, n' + 1, hn => by
    refine h.bindLax fun a b hab => (accept .comma (.inl trivial)).bindLax fun x _ e => ?_
    subst e
    split
    · exact (h.commaSeparated hn.pred).bindLax fun _ _ hl => .pure (.cons hab hl)
    · exact .pure (.cons hab .nil)

lemma listed (h : P.Follows deep True R p q) (close) :
    P.Follows deep True (Forall₂ R) (listed p close) (listed q close) := by
  refine (check close (.inl trivial)).bindLax fun x _ e => ?_
  subst e
  split
  · exact .pure .nil
  · exact rounds.bindLax fun _ _ hn => h.commaSeparated hn

lemma enclosed (h : P.Follows deep True R p q) (close message) :
    P.Follows deep lax (Forall₂ R) (enclosed p close message)
      (enclosed q close message) :=
  (h.listed close).bind (fun _ _ hl => (expect close message).bind (fun _ _ _ => .pure hl) .inl)
    fun _ => .inr fun _ => (Consumes.expect close message).left

/-! ### Recovery -/

lemma tokens_skipToBoundary {t} (ht : P.Tokens t t') {l l'} (hl : Forall₂ P.Tokens l l') :
    P.Tokens (skipToBoundary t l).1 (skipToBoundary t' l').1 ∧
      Forall₂ P.Tokens (skipToBoundary t l).2 (skipToBoundary t' l').2 := by
  induction hl generalizing t t' with
  | nil => exact ⟨ht, .nil⟩
  | @cons x x' l l' hx hl ih =>
    unfold skipToBoundary
    rw [← ht.kind, ← hx.kind]
    split
    · exact ⟨ht, .cons hx hl⟩
    · exact ih hx

lemma tokens_resumption {t} (ht : P.Tokens t t') {l l'} (hl : Forall₂ P.Tokens l l') :
    P.Tokens (resumption t l).1 (resumption t' l').1 ∧
      Forall₂ P.Tokens (resumption t l).2 (resumption t' l').2 := by
  cases hl with
  | nil => exact ⟨ht, .nil⟩
  | cons hx hl => exact tokens_skipToBoundary hx hl

lemma states_recovered (full : P.full) {s s' t t' : ParseState} (h : s.Onward t)
    (h' : s'.Onward t') (ht : P.States t t') (e) :
    P.States (recovered s.scopes.depth e t) (recovered s'.scopes.depth e t') := by
  obtain ⟨own, he, hr⟩ := ht.rest
  rw [P.full_more full, append_nil] at he
  obtain ⟨last, rest⟩ := tokens_resumption (ht.last (.inl full)) hr
  refine ⟨fun _ => ?_, ⟨_, ?_, rest⟩, ?_, ?_⟩
  · rw [← he] at last
    exact last
  · rw [P.full_more full, append_nil, ← he]
    rfl
  · rw [scopes_recovered h, scopes_recovered h']
    exact ht.scopes
  · exact congrArg (· ++ [e]) ht.errors

lemma broken_recovering {c} {p : Parse (Option Stmt)} {s} (h : (p.run c s).Broken) :
    ((Parse.recovering p).run c s).Broken := by
  rw [Parse.run_recovering]
  cases hp : p.run c s with
  | ok a t =>
    rw [hp] at h
    exact h
  | error e t =>
    cases e with
    | error e =>
      dsimp only [recovery]
      split
      · trivial
      · exact append_ne_nil_of_right_ne_nil _ (cons_ne_nil e [])
    | canceled | scopes | exhausted => trivial

lemma recovering {p q} (h : P.Follows deep lax (Option.Rel P.coding.stmt) p q) :
    P.Follows deep lax (Option.Rel P.coding.stmt) (Parse.recovering p)
      (Parse.recovering q) := by
  intro s s' hs hd
  have outcome := h s s' hs hd
  have onward := p.onward P.first s
  have onward' := q.onward P.second s'
  cases hp : p.run P.first s with
  | ok a t =>
    rw [hp] at outcome
    have run : (Parse.recovering p).run P.first s = .ok a t := by
      rw [Parse.run_recovering, hp]
    rw [run]
    intro good ahead
    rcases outcome good ahead with ⟨hn, hb⟩ | ⟨b, t', he, hab, ht⟩
    · exact .inl ⟨hn, broken_recovering hb⟩
    · exact .inr ⟨b, t', by rw [Parse.run_recovering, he], hab, ht⟩
  | error e t =>
    rw [hp] at outcome onward
    cases e with
    | canceled | scopes | exhausted =>
      simp only [Parse.run_recovering, hp]
      intro full within
      obtain ⟨t', he, ht⟩ := outcome full within
      exact ⟨t', by simp only [he], ht⟩
    | error e =>
      -- A recorded error is of interest in full parses only.
      have same (full : P.full) (within : P.Within (recovered s.scopes.depth e t).scopes) :
          ∃ t', q.run P.second s' = .error (.error e) t' ∧
            P.States (recovered s.scopes.depth e t)
              (recovered s'.scopes.depth e t') := by
        rw [scopes_recovered (t := t) onward] at within
        obtain ⟨t', he, ht⟩ := outcome full within
        rw [he] at onward'
        exact ⟨t', he, states_recovered full onward onward' ht e⟩
      simp only [Parse.run_recovering, recovery, hp]
      by_cases strict : P.first.strict
      · rw [if_pos strict]
        intro full within
        obtain ⟨t', he, ht⟩ := same full within
        exact ⟨_, by simp only [he, ← P.full_strict full, strict, ↓reduceIte], ht⟩
      · rw [if_neg strict]
        intro good _
        rcases good.errors with full | none
        · obtain ⟨t', he, ht⟩ := same full good.within
          refine .inr ⟨none, _, ?_, .none, ht⟩
          simp only [he, ← P.full_strict full, strict, Bool.false_eq_true, ↓reduceIte]
        · exact absurd none (append_ne_nil_of_right_ne_nil _ (cons_ne_nil e []))

end Follows

end Parallel

end DynScript

import DynScript.Compile
import Mathlib.Tactic.Lemma

/-!
# Runs of the primitive parsers

What each primitive parser does, and what its success tells: `run_bind`, `run_peek`, … are equations
for parsers that cannot fail, and `takes_of_expect`, `ok_of_declareAs`, … say what has happened when
one that can fail has not.
-/

namespace DynScript

namespace ParseResult

variable {α β : Type}

@[simp] lemma andThen_ok (a : α) (s) (f : α → ParseState → ParseResult β) :
    (ok a s).andThen f = f a s := rfl

@[simp] lemma andThen_error (e s) (f : α → ParseState → ParseResult β) :
    (error e s).andThen f = error e s := rfl

lemma andThen_eq_ok {r : ParseResult α} {f : α → ParseState → ParseResult β} {b : β} {u} :
    r.andThen f = .ok b u ↔ ∃ a t, r = .ok a t ∧ f a t = .ok b u := by
  cases r <;> simp [and_assoc]

end ParseResult

/-! ### Declarations in a scope table -/

namespace ScopeTable

variable {t u : ScopeTable} {name : String} {location : Option Location}

lemma define_eq (t : ScopeTable) (name location) (constant : Bool) :
    t.define name location constant =
      if (t.current.slot? name).isSome then
        (.error (.variableDeclared name location), { t with nextSlot := t.nextSlot + 1 })
      else
        (.ok ⟨name, constant, location, t.nextSlot⟩,
          { t with nextSlot := t.nextSlot + 1 }.setCurrent
            (t.current.addSlot ⟨name, constant, location, t.nextSlot⟩)) := rfl

lemma defineLabel_eq (t : ScopeTable) (name kind location) (placed : Bool) :
    t.defineLabel name kind location placed =
      if (t.current.label? name).isSome then
        (.error (.labelDeclared name location), { t with nextLabel := t.nextLabel + 1 })
      else
        (.ok ⟨⟨name, kind, t.nextLabel⟩, location, placed⟩,
          { t with nextLabel := t.nextLabel + 1 }.setCurrent
            (t.current.addLabel ⟨⟨name, kind, t.nextLabel⟩, location, placed⟩)) := rfl

lemma ok_of_define {constant : Bool} {slot} (h : t.define name location constant = (.ok slot, u)) :
    t.current.slot? name = none ∧ slot = ⟨name, constant, location, t.nextSlot⟩ ∧
    u = { t with nextSlot := t.nextSlot + 1 }.setCurrent (t.current.addSlot slot) := by
  rw [define_eq] at h
  split at h <;> cases h
  exact ⟨by simp_all, rfl, rfl⟩

lemma ok_of_defineLabel {kind} {placed : Bool} {entry}
    (h : t.defineLabel name kind location placed = (.ok entry, u)) :
    t.current.label? name = none ∧ entry = ⟨⟨name, kind, t.nextLabel⟩, location, placed⟩ ∧
    u = { t with nextLabel := t.nextLabel + 1 }.setCurrent (t.current.addLabel entry) := by
  rw [defineLabel_eq] at h
  split at h <;> cases h
  exact ⟨by simp_all, rfl, rfl⟩

end ScopeTable

/-! ### Runs of primitive parsers -/

/-- Reading the token `t` takes the state `s` to `u`. -/
structure Takes (s : ParseState) (t : Token) (u : ParseState) : Prop where
  rest : s.rest = t :: u.rest
  eq : u = { s with last := t, rest := u.rest }

namespace Parse

variable {α β : Type} {c : ParseContext} {s u : ParseState}

@[simp] lemma run_bind (p) (q : α → Parse β) :
    (p >>= q).run c s = (p.run c s).andThen fun a t => (q a).run c t := rfl

@[simp] lemma run_pure (a : α) : (pure a : Parse α).run c s = .ok a s := rfl

@[simp] lemma run_map (f : α → β) (p : Parse α) :
    (f <$> p).run c s = (p.run c s).andThen fun a t => .ok (f a) t := rfl

@[simp] lemma run_stop (e) : (stop e : Parse α).run c s = .error e s := rfl

@[simp] lemma run_fail (fault token) :
    (fail fault token : Parse α).run c s = .error (.error { fault := fault, token := token }) s := rfl

@[simp] lemma run_context : context.run c s = .ok c s := rfl

@[simp] lemma run_state : state.run c s = .ok s s := rfl

@[simp] lemma run_peek : peek.run c s = .ok (s.rest.headD c.eof) s := rfl

@[simp] lemma run_check (kind) :
    (check kind).run c s = .ok (s.rest.head?.any (·.kind = kind)) s := rfl

@[simp] lemma run_atEnd : atEnd.run c s = .ok s.rest.isEmpty s := rfl

@[simp] lemma run_rounds : rounds.run c s = .ok c.bound s := rfl

@[simp] lemma run_scopes : scopes.run c s = .ok s.scopes s := rfl

@[simp] lemma run_currentSlots : currentSlots.run c s = .ok s.scopes.current.slots s := rfl

lemma onward_of_ok {p : Parse α} {a : α} (h : p.run c s = .ok a u) : s.Onward u := by
  have := p.onward c s
  rwa [h] at this

lemma run_advance_cons {t rest} (h : s.rest = t :: rest) :
    advance.run c s = .ok t { s with last := t, rest := rest } := by
  simp [advance, h]

lemma takes_of_advance {k} (hc : c.eof.kind = .endOfInput)
    (hk : (s.rest.headD c.eof).kind ≠ .endOfInput) (h : advance.run c s = .ok k u) :
    k = s.rest.headD c.eof ∧ Takes s k u := by
  cases hr : s.rest with
  | nil => simp [hr, hc] at hk
  | cons t rest =>
    rw [run_advance_cons hr] at h
    cases h
    exact ⟨rfl, hr, rfl⟩

lemma run_accept? (kind) : (accept? kind).run c s =
    match s.rest with
    | [] => .ok none s
    | t :: rest =>
      if t.kind = kind then .ok (some t) { s with last := t, rest := rest } else .ok none s := by
  unfold accept?
  cases hr : s.rest with
  | nil => simp [hr]
  | cons t rest =>
    by_cases h : t.kind = kind <;> simp [hr, h, run_advance_cons hr]

lemma takes_of_accept? {kind} {t} (h : (accept? kind).run c s = .ok (some t) u) :
    t.kind = kind ∧ Takes s t u := by
  rw [run_accept?] at h
  split at h
  · cases h
  · rename_i x rest hr
    split at h <;> cases h
    exact ⟨‹_›, hr, rfl⟩

lemma eq_of_accept? {kind} (h : (accept? kind).run c s = .ok none u) : u = s := by
  rw [run_accept?] at h
  split at h
  · cases h; rfl
  · split at h <;> cases h
    rfl

lemma run_expect_cons {kind message} {t} {rest} (hr : s.rest = t :: rest) (hk : t.kind = kind) :
    (expect kind message).run c s = .ok t { s with last := t, rest := rest } := by
  simp [expect, run_accept?, hr, hk]

lemma takes_of_expect {kind message} {t} (h : (expect kind message).run c s = .ok t u) :
    t.kind = kind ∧ Takes s t u := by
  simp only [expect, run_bind, ParseResult.andThen_eq_ok] at h
  obtain ⟨o, v, ho, h⟩ := h
  cases o with
  | none => simp at h
  | some x =>
    cases h
    exact takes_of_accept? ho

lemma takes_of_accept {kind} (h : (accept kind).run c s = .ok true u) :
    ∃ t, t.kind = kind ∧ Takes s t u := by
  simp only [accept, run_bind, ParseResult.andThen_eq_ok] at h
  obtain ⟨o, v, ho, h⟩ := h
  cases o with
  | none => simp at h
  | some t =>
    cases h
    exact ⟨t, takes_of_accept? ho⟩

lemma eq_of_accept {kind} (h : (accept kind).run c s = .ok false u) : u = s := by
  simp only [accept, run_bind, ParseResult.andThen_eq_ok] at h
  obtain ⟨o, v, ho, h⟩ := h
  cases o with
  | none =>
    cases h
    exact eq_of_accept? ho
  | some t => simp at h

/-! ### Runs of parsers that declare -/

variable {token : Token} {objection : ScopeError → ParseFailure}

lemma ok_of_resolve {operation : ScopeTable → Except ScopeError α × ScopeTable}
    {hop : ∀ t : ScopeTable, t.Onward (operation t).2} {a : α}
    (h : (resolve operation hop objection).run c s = .ok a u) :
    ∃ scopes, operation s.scopes = (.ok a, scopes) ∧ u = { s with scopes := scopes } := by
  simp only [resolve] at h
  split at h <;> cases h
  exact ⟨_, ‹_›, rfl⟩

lemma run_declareAs {name} (token) (constant : Bool) (objection : ScopeError → ParseFailure)
    (h : s.scopes.current.slot? name = none) :
    (declareAs name token constant objection).run c s =
      .ok ⟨name, constant, token.location, s.scopes.nextSlot⟩
        { s with
          scopes := { s.scopes with nextSlot := s.scopes.nextSlot + 1 }.setCurrent
            (s.scopes.current.addSlot ⟨name, constant, token.location, s.scopes.nextSlot⟩) } := by
  simp [declareAs, resolve, ScopeTable.define_eq, h]

lemma ok_of_declareAs {name} {constant : Bool} {slot}
    (h : (declareAs name token constant objection).run c s = .ok slot u) :
    s.scopes.current.slot? name = none ∧
    slot = ⟨name, constant, token.location, s.scopes.nextSlot⟩ ∧
    u = { s with
      scopes := { s.scopes with nextSlot := s.scopes.nextSlot + 1 }.setCurrent
        (s.scopes.current.addSlot slot) } := by
  obtain ⟨scopes, ho, rfl⟩ := ok_of_resolve h
  obtain ⟨hn, rfl, rfl⟩ := ScopeTable.ok_of_define ho
  exact ⟨hn, rfl, rfl⟩

lemma ok_of_reserve {kind} {label} (h : (reserve kind).run c s = .ok label u) :
    s.scopes.current.label? kind.word = none ∧ label = ⟨kind.word, kind, s.scopes.nextLabel⟩ ∧
    u = { s with
      scopes := { s.scopes with nextLabel := s.scopes.nextLabel + 1 }.setCurrent
        (s.scopes.current.addLabel { label := label, placed := true }) } := by
  simp only [reserve, run_bind, ParseResult.andThen_eq_ok] at h
  obtain ⟨entry, v, h, hv⟩ := h
  cases hv
  obtain ⟨scopes, ho, rfl⟩ := ok_of_resolve h
  obtain ⟨hn, rfl, rfl⟩ := ScopeTable.ok_of_defineLabel ho
  exact ⟨hn, rfl, rfl⟩

lemma ok_of_inScope {kind : ScopeKind} {body} {hk : kind.isRoot = false} {a : α}
    (h : (inScope kind body hk).run c s = .ok a u) :
    ∃ t, body.run c { s with scopes := s.scopes.enter kind } = .ok a t ∧
      u = unwind s.scopes.depth t := by
  rw [run_inScope] at h
  split at h <;> cases h
  exact ⟨_, ‹_›, rfl⟩

/-! ### What rules give -/

section Gives

variable {p q : Parse α} {f : α → Parse β} {P : α → ParseState → Prop} {Q : β → ParseState → Prop}
  {kind : TokenKind}

/-- Whatever a parser gives, `P` holds of it and of the state behind it. -/
def Gives (p : Parse α) (c : ParseContext) (s : ParseState) (P : α → ParseState → Prop) : Prop :=
  ∀ a u, p.run c s = .ok a u → P a u

namespace Gives

lemma pure {a : α} (h : P a s) : (Pure.pure a : Parse α).Gives c s P := by
  rintro _ _ ⟨⟩
  exact h

lemma stop (e) : (Parse.stop e : Parse α).Gives c s P := by
  rintro _ _ ⟨⟩

lemma fail {fault token} : (Parse.fail fault token : Parse α).Gives c s P :=
  stop _

lemma mono {P' : α → ParseState → Prop} (h : p.Gives c s P) (hP : ∀ a u, P a u → P' a u) :
    p.Gives c s P' :=
  fun a u ha => hP a u (h a u ha)

lemma bind (hp : p.Gives c s P) (hf : ∀ a t, P a t → (f a).Gives c t Q) : (p >>= f).Gives c s Q := by
  intro b u h
  rw [run_bind, ParseResult.andThen_eq_ok] at h
  obtain ⟨a, t, ha, h⟩ := h
  exact hf a t (hp a t ha) b u h

lemma self (p : Parse α) (s) : p.Gives c s fun a u => p.run c s = .ok a u :=
  fun _ _ => id

lemma run (h : p.Gives c s P) : p.Gives c s fun a u => p.run c s = .ok a u ∧ P a u :=
  fun a u ha => ⟨ha, h a u ha⟩

lemma map {g : α → β} (h : p.Gives c s fun a u => Q (g a) u) : (g <$> p).Gives c s Q :=
  h.bind fun _ _ => .pure

lemma seen {a : α} (hp : p.run c s = .ok a s) (hf : (f a).Gives c s Q) : (p >>= f).Gives c s Q := by
  intro b u h
  rw [run_bind, hp] at h
  exact hf b u h

lemma expect {message} {f : Token → Parse β}
    (hf : ∀ x t, x.kind = kind → Takes s x t → (f x).Gives c t Q) :
    (Parse.expect kind message >>= f).Gives c s Q :=
  .bind (P := fun x t => x.kind = kind ∧ Takes s x t) (fun _ _ => takes_of_expect) fun x t h =>
    hf x t h.1 h.2

lemma accept? {f : Option Token → Parse β}
    (yes : ∀ x t, x.kind = kind → Takes s x t → (f (some x)).Gives c t Q) (no : (f none).Gives c s Q) :
    (Parse.accept? kind >>= f).Gives c s Q := by
  refine .bind (P := fun o t => (f o).Gives c t Q) (fun o t h => ?_) fun _ _ h => h
  cases o with
  | some x => exact yes x t (takes_of_accept? h).1 (takes_of_accept? h).2
  | none => exact eq_of_accept? h ▸ no

lemma accept (yes : ∀ x t, x.kind = kind → Takes s x t → p.Gives c t P) (no : q.Gives c s P) :
    (Parse.accept kind >>= fun b => if b = true then p else q).Gives c s P := by
  intro a u h
  rw [run_bind, ParseResult.andThen_eq_ok] at h
  obtain ⟨b, t, hb, h⟩ := h
  cases b with
  | true =>
    obtain ⟨x, hx, ht⟩ := takes_of_accept hb
    exact yes x t hx ht a u h
  | false => exact no a u (eq_of_accept hb ▸ h)

lemma check (yes : p.Gives c s P) (no : q.Gives c s P) :
    (Parse.check kind >>= fun b => if b = true then p else q).Gives c s P := by
  refine .seen rfl ?_
  split
  · exact yes
  · exact no

lemma inScope {scope : ScopeKind} {hk : scope.isRoot = false}
    (h : p.Gives c { s with scopes := s.scopes.enter scope } fun a t => P a (unwind s.scopes.depth t)) :
    (Parse.inScope scope p hk).Gives c s P := by
  intro a u ha
  obtain ⟨t, ht, rfl⟩ := ok_of_inScope ha
  exact h a t ht

lemma advance {f : Token → Parse β} (hc : c.eof.kind = .endOfInput)
    (hk : (s.rest.headD c.eof).kind ≠ .endOfInput)
    (hf : ∀ x t, x = s.rest.headD c.eof → Takes s x t → (f x).Gives c t Q) :
    (Parse.advance >>= f).Gives c s Q :=
  .bind (P := fun x t => x = s.rest.headD c.eof ∧ Takes s x t) (fun _ _ => takes_of_advance hc hk)
    fun x t h => hf x t h.1 h.2

end Gives

variable {item : Parse α} {close : TokenKind} {I : ParseState → α → ParseState → Prop}
  {R : ParseState → List α → ParseState → Prop}

lemma gives_commaSeparated (hi : ∀ s, item.Gives c s (I s)) (one : ∀ {s a u}, I s a u → R s [a] u)
    (more : ∀ {s a t x v l u}, I s a t → Takes t x v → x.kind = .comma → R v l u → R s (a :: l) u) :
    ∀ n s, (commaSeparated item n).Gives c s (R s)
  | 0, _ => .stop _
  | n + 1, s => .bind (hi s) fun _ _ ha => .accept
    (fun _ v hx ht => .bind (gives_commaSeparated hi one more n v) fun _ _ hl =>
      .pure (more ha ht hx hl)) (.pure (one ha))

lemma gives_listed (none : ∀ {s}, R s [] s) (hi : ∀ s, item.Gives c s (I s))
    (one : ∀ {s a u}, I s a u → R s [a] u)
    (more : ∀ {s a t x v l u}, I s a t → Takes t x v → x.kind = .comma → R v l u → R s (a :: l) u)
    (s) : (listed item close).Gives c s (R s) :=
  .check (.pure none) (.seen rfl (gives_commaSeparated hi one more _ s))

end Gives

end Parse

end DynScript

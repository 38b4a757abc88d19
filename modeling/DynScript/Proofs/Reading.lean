import DynScript.Proofs.ParseRuns
import DynScript.Proofs.Scoping

/-!
# What a parser has read

`Reads i j s a u` says what holds when a parser has come from state `s` to state `u` with the result
`a`: the code in `a` is bound in the scopes of `u`, the slots declared and bound on the way have new
numbers, and, as long as no error was recorded, the jumps in `a` lead to labels in sight and the tokens
passed over close as many braces as they open, up to `i` and `j`.
-/

namespace DynScript

open List ScopeTable
open Code (Bound Lands binders)

/-! ### Labels ahead -/

/-- A token that is no brace and does not start the declaration of a label. -/
def TokenKind.Plain (k : TokenKind) : Prop :=
  k ≠ .leftBrace ∧ k ≠ .rightBrace ∧ k ≠ .kwLabel

instance (k : TokenKind) : Decidable k.Plain :=
  inferInstanceAs (Decidable (_ ∧ _))

/-- Passing over the tokens `seg` takes the search for the labels of a block from `i` open braces to
`j`, in any block further out and before any tokens. -/
def Shift (i j : Nat) (seg : List Token) : Prop :=
  ∀ d r, Parse.labelsAhead (d + i) (seg ++ r) = Parse.labelsAhead (d + j) r

namespace Shift

variable {i j k : Nat} {a b : List Token}

lemma nil : Shift i i [] := fun _ _ => rfl

lemma append (ha : Shift i j a) (hb : Shift j k b) : Shift i k (a ++ b) := by
  intro d r
  rw [append_assoc, ha, hb]

lemma deeper (h : Shift i j a) (n : Nat) : Shift (n + i) (n + j) a := by
  intro d r
  rw [← Nat.add_assoc, h, Nat.add_assoc]

lemma plain {t : Token} (h : t.kind.Plain) : Shift 0 0 [t] := by
  obtain ⟨h₁, h₂, h₃⟩ := h
  intro d r
  simp only [singleton_append, Parse.labelsAhead]

lemma opening {t : Token} (h : t.kind = .leftBrace) : Shift 0 1 [t] := by
  intro d r
  simp [Parse.labelsAhead, h]

lemma closing {t : Token} (h : t.kind = .rightBrace) : Shift 1 0 [t] := by
  intro d r
  simp [Parse.labelsAhead, h]

end Shift

/-! ### What is in sight -/

namespace ScopeTable

variable {t u : ScopeTable}

/-- The slots in sight, the innermost first. -/
def visible (t : ScopeTable) : List Slot :=
  t.chain.flatMap (·.slots)

/-- A jump can lead to the number `id` from inside these scopes. -/
def Reaches (id : Nat) : List Scope → Prop
  | [] => False
  | s :: rest =>
    (∃ name e, s.label? name = some e ∧ e.label.id = id) ∨ s.kind ≠ .function ∧ Reaches id rest

/-- The numbers of the labels that a jump can lead to. -/
def Target (t : ScopeTable) (id : Nat) : Prop :=
  Reaches id t.chain

lemma mem_visible_of_lookup {name slot} (h : t.lookup name = some slot) : slot ∈ t.visible := by
  obtain ⟨s, hs, hf⟩ := exists_of_findSome?_eq_some h
  exact mem_flatMap.2 ⟨s, hs, mem_of_find?_eq_some hf⟩

lemma reaches_of_labelIn {name} {e} :
    ∀ {l : List Scope}, labelIn name l = some e → Reaches e.label.id l
  | [], h => by simp [labelIn] at h
  | s :: rest, h => by
    simp only [labelIn] at h
    split at h
    · rename_i f hf
      cases h
      exact .inl ⟨name, e, hf, rfl⟩
    · split at h
      · cases h
      · exact .inr ⟨‹_›, reaches_of_labelIn h⟩

lemma visible_eq (t : ScopeTable) :
    t.visible = t.current.slots ++ (t.around ++ [t.linked]).flatMap (·.slots) := by
  rw [visible, chain_eq, flatMap_cons]

lemma Onward.visible (h : t.Onward u) : t.visible ⊆ u.visible := by
  obtain ⟨new, hn, -⟩ := h.slots
  rw [visible_eq, visible_eq, h.linked, h.around, hn]
  intro x hx
  rcases mem_append.1 hx with hx | hx
  · exact mem_append_left _ (mem_append_left _ hx)
  · exact mem_append_right _ hx

lemma Onward.target (h : t.Onward u) {id : Nat} (ht : t.Target id) : u.Target id := by
  unfold Target at ht ⊢
  rw [chain_eq] at ht ⊢
  rw [h.linked, h.around]
  rcases ht with ⟨name, e, he, hi⟩ | ⟨hk, hr⟩
  · obtain ⟨f, hf, hl, -⟩ := h.label? name e he
    exact .inl ⟨name, f, hf, hl ▸ hi⟩
  · exact .inr ⟨h.kind ▸ hk, hr⟩

end ScopeTable

lemma errors_eq_of_onward {s t u : ParseState} (h : s.Onward t) (k : t.Onward u)
    (he : u.errors = s.errors) : t.errors = s.errors ∧ u.errors = t.errors := by
  have h₁ := h.errors.length_le
  have h₂ := k.errors.length_le
  rw [he] at h₂
  have := h.errors.eq_of_length (by omega)
  exact ⟨this.symm, by rw [he, this]⟩

/-! ### Readings -/

/-- A parse has come from `s` to `u` and given the code `a`, passing over tokens that lead from `i`
open braces to `j`. -/
structure Reads {α : Type} [Code α] (i j : Nat) (s : ParseState) (a : α) (u : ParseState) : Prop where
  onward : s.Onward u
  bound : Bound u.scopes.visible a
  fresh : ∃ new, u.scopes.current.slots = s.scopes.current.slots ++ new ∧
    Fresh s.scopes.nextSlot u.scopes.nextSlot ((new ++ binders a).map (·.id))
  lands : u.errors = s.errors → Lands u.scopes.Target a
  shift : u.errors = s.errors → ∃ seg, s.rest = seg ++ u.rest ∧ Shift i j seg

/-- A reading that leaves the current scope as it is. -/
structure Quiet {α : Type} [Code α] (i j : Nat) (s : ParseState) (a : α) (u : ParseState) : Prop
    extends Reads i j s a u where
  current : u.scopes.current = s.scopes.current

namespace Reads

variable {α β γ : Type} [Code α] [Code β] [Code γ] {i j k : Nat} {s t u : ParseState} {a : α} {b : β}

lemma andThen (h : Reads i j s a t) (g : Reads j k t b u) : Reads i k s (a, b) u where
  onward := h.onward.trans g.onward
  bound := ⟨Code.bound_mono g.onward.scopes.visible h.bound, g.bound⟩
  fresh := by
    obtain ⟨n, hn, hf⟩ := h.fresh
    obtain ⟨m, hm, gf⟩ := g.fresh
    refine ⟨n ++ m, by rw [hm, hn, append_assoc], ?_⟩
    refine (hf.append gf h.onward.scopes.nextSlot g.onward.scopes.nextSlot).perm ?_
    rw [← map_append]
    refine List.Perm.map _ ?_
    simp only [binders, append_assoc]
    refine List.Perm.append_left n ?_
    simp only [← append_assoc]
    exact List.Perm.append_right _ perm_append_comm
  lands he := by
    obtain ⟨h₁, h₂⟩ := errors_eq_of_onward h.onward g.onward he
    exact ⟨Code.lands_mono (fun _ => g.onward.scopes.target) (h.lands h₁), g.lands h₂⟩
  shift he := by
    obtain ⟨h₁, h₂⟩ := errors_eq_of_onward h.onward g.onward he
    obtain ⟨x, hx, sx⟩ := h.shift h₁
    obtain ⟨y, hy, sy⟩ := g.shift h₂
    exact ⟨x ++ y, by rw [hx, hy, append_assoc], sx.append sy⟩

lemma rebind {c : γ} (h : Reads i j s a u)
    (hb : Bound u.scopes.visible a → Bound u.scopes.visible c)
    (hf : (binders a).Perm (binders c))
    (hl : Lands u.scopes.Target a → Lands u.scopes.Target c) : Reads i j s c u where
  onward := h.onward
  bound := hb h.bound
  fresh := by
    obtain ⟨new, hn, fn⟩ := h.fresh
    exact ⟨new, hn, fn.perm ((hf.append_left new).map _)⟩
  lands he := hl (h.lands he)
  shift := h.shift

lemma map {c : γ} (h : Reads i j s a u)
    (hb : Bound u.scopes.visible a → Bound u.scopes.visible c)
    (hf : binders c = binders a)
    (hl : Lands u.scopes.Target a → Lands u.scopes.Target c) : Reads i j s c u :=
  h.rebind hb (.of_eq hf.symm) hl

lemma refl (s) : Reads i i s () s where
  onward := .refl s
  bound := trivial
  fresh := ⟨[], by simp, Fresh.nil⟩
  lands _ := trivial
  shift _ := ⟨[], rfl, .nil⟩

lemma deeper (h : Reads i j s a u) (n : Nat) : Reads (n + i) (n + j) s a u where
  onward := h.onward
  bound := h.bound
  fresh := h.fresh
  lands := h.lands
  shift he := by
    obtain ⟨x, hx, sx⟩ := h.shift he
    exact ⟨x, hx, sx.deeper n⟩

lemma leave {kind : ScopeKind} (hk : kind.isRoot = false) {c : γ}
    (h : Reads i j { s with scopes := s.scopes.enter kind } a t)
    (hb : Bound (t.scopes.current.slots ++ s.scopes.visible) a →
      Bound s.scopes.visible c)
    (hf : binders c = t.scopes.current.slots ++ binders a)
    (hl : t.errors = s.errors → Lands t.scopes.Target a → Lands s.scopes.Target c) :
    Quiet i j s c (Parse.unwind s.scopes.depth t) := by
  have hs : (Parse.unwind s.scopes.depth t).scopes =
      { s.scopes with nextSlot := t.scopes.nextSlot, nextLabel := t.scopes.nextLabel } := by
    simp only [Parse.unwind, unwindTo_of_onward_enter hk h.onward.scopes]
  have hv : t.scopes.visible = t.scopes.current.slots ++ s.scopes.visible := by
    rw [visible_eq, h.onward.scopes.around, h.onward.scopes.linked,
      around_enter, visible, chain_eq, ← cons_append,
      ← stack_eq]
    rfl
  refine ⟨⟨Parse.onward_unwind_enter hk h.onward, ?_, ⟨[], by simp [hs, current], ?_⟩,
    fun he => ?_, h.shift⟩, by simp [hs, current]⟩
  · rw [hs]
    exact hb (hv ▸ h.bound)
  · obtain ⟨new, hn, fn⟩ := h.fresh
    rw [hs, hf, hn]
    exact fn
  · rw [hs]
    exact hl he (h.lands he)

end Reads

namespace Quiet

variable {α β γ : Type} [Code α] [Code β] [Code γ] {i j k : Nat} {s t u : ParseState} {a : α} {b : β}

lemma andThen (h : Quiet i j s a t) (g : Quiet j k t b u) : Quiet i k s (a, b) u :=
  ⟨h.toReads.andThen g.toReads, g.current.trans h.current⟩

lemma rebind {c : γ} (h : Quiet i j s a u)
    (hb : Bound u.scopes.visible a → Bound u.scopes.visible c)
    (hf : (binders a).Perm (binders c))
    (hl : Lands u.scopes.Target a → Lands u.scopes.Target c) : Quiet i j s c u :=
  ⟨h.toReads.rebind hb hf hl, h.current⟩

lemma map {c : γ} (h : Quiet i j s a u)
    (hb : Bound u.scopes.visible a → Bound u.scopes.visible c)
    (hf : binders c = binders a)
    (hl : Lands u.scopes.Target a → Lands u.scopes.Target c) : Quiet i j s c u :=
  ⟨h.toReads.map hb hf hl, h.current⟩

lemma refl (s) : Quiet i i s () s :=
  ⟨.refl s, rfl⟩

lemma deeper (h : Quiet i j s a u) (n : Nat) : Quiet (n + i) (n + j) s a u :=
  ⟨h.toReads.deeper n, h.current⟩

lemma start (s) : Quiet 0 0 s () s :=
  .refl s

lemma before (h : Quiet i j s () t) (g : Quiet j k t b u) : Quiet i k s b u :=
  (h.andThen g).map And.right rfl And.right

lemma after (h : Quiet i j s a t) (g : Quiet j k t () u) : Quiet i k s a u :=
  (h.andThen g).map And.left (by simp [binders]) And.left

end Quiet

/-! ### Declarations -/

/-- A reading that declares the variables `new` and leaves the rest of the current scope as it is. -/
structure Adds {α : Type} [Code α] (new : List Slot) (i j : Nat) (s : ParseState) (a : α)
    (u : ParseState) : Prop extends Reads i j s a u where
  slots : u.scopes.current.slots = s.scopes.current.slots ++ new
  labels : u.scopes.current.labels = s.scopes.current.labels

namespace Adds

variable {α β γ : Type} [Code α] [Code β] [Code γ] {new more : List Slot} {i j k : Nat}
  {s t u : ParseState} {a : α} {b : β}

lemma andThen (h : Adds new i j s a t) (g : Adds more j k t b u) :
    Adds (new ++ more) i k s (a, b) u :=
  ⟨h.toReads.andThen g.toReads, by rw [g.slots, h.slots, append_assoc],
    g.labels.trans h.labels⟩

lemma map {c : γ} (h : Adds new i j s a u)
    (hb : Bound u.scopes.visible a → Bound u.scopes.visible c)
    (hf : binders c = binders a)
    (hl : Lands u.scopes.Target a → Lands u.scopes.Target c) : Adds new i j s c u :=
  ⟨h.toReads.map hb hf hl, h.slots, h.labels⟩

lemma before (h : Adds new i j s () t) (g : Adds more j k t b u) :
    Adds (new ++ more) i k s b u :=
  (h.andThen g).map And.right rfl And.right

lemma after (h : Adds new i j s a t) (g : Adds more j k t () u) :
    Adds (new ++ more) i k s a u :=
  (h.andThen g).map And.left (by simp [binders]) And.left

end Adds

lemma Quiet.adds {α : Type} [Code α] {i j : Nat} {s u} {a : α} (h : Quiet i j s a u) :
    Adds [] i j s a u :=
  ⟨h.toReads, by rw [h.current, append_nil], by rw [h.current]⟩

lemma Parse.adds_of_declareAs {c} {i : Nat} {s u name token} {constant : Bool}
    {objection : ScopeError → ParseFailure} {slot}
    (h : (declareAs name token constant objection).run c s = .ok slot u) :
    Adds [slot] i i s () u := by
  have ho := onward_of_ok h
  obtain ⟨-, hs, rfl⟩ := ok_of_declareAs h
  refine ⟨⟨ho, trivial, ⟨[slot], by simp [Scope.addSlot], ?_⟩, fun _ => trivial,
    fun _ => ⟨[], rfl, .nil⟩⟩, by simp [Scope.addSlot], by simp [Scope.addSlot]⟩
  simp only [hs, binders, nextSlot_setCurrent]
  exact Fresh.single (Nat.lt_succ_self _)

lemma Parse.reads_of_reserve {c} {i : Nat} {s u} {kind label}
    (h : (reserve kind).run c s = .ok label u) :
    Reads i i s () u ∧
    u.scopes.current = s.scopes.current.addLabel { label := label, placed := true } := by
  have ho := onward_of_ok h
  obtain ⟨-, -, rfl⟩ := ok_of_reserve h
  exact ⟨⟨ho, trivial, ⟨[], by simp [Scope.addLabel], Fresh.nil⟩, fun _ => trivial,
    fun _ => ⟨[], rfl, .nil⟩⟩, by simp⟩

/-! ### Tokens -/

namespace Takes

variable {i j : Nat} {s u : ParseState} {t : Token}

section

variable (h : Takes s t u)
include h

lemma scopes : u.scopes = s.scopes := by
  rw [h.eq]

lemma errors : u.errors = s.errors := by
  rw [h.eq]

lemma onward : s.Onward u :=
  ⟨⟨[t], h.rest.symm⟩, h.errors ▸ prefix_refl _, h.scopes ▸ .refl _⟩

lemma quiet (hs : Shift i j [t]) : Quiet i j s () u :=
  ⟨⟨h.onward, trivial, ⟨[], by simp [h.scopes], Fresh.nil⟩, fun _ => trivial,
    fun _ => ⟨[t], h.rest, hs⟩⟩, by rw [h.scopes]⟩

lemma plain (hp : t.kind.Plain) : Quiet 0 0 s () u :=
  h.quiet (.plain hp)

end

end Takes

/-! ### Rules that stay quiet -/

namespace Quiet

open Parse

variable {α β γ : Type} [Code α] [Code β] {i j k : Nat} {c : ParseContext} {s₀ s : ParseState} {a : α}
  {p q : Parse γ} {r : Parse β} {Q : γ → ParseState → Prop} {kind : TokenKind}

lemma bind {f : β → Parse γ} (h : Quiet i j s₀ a s) (hr : r.Gives c s (Quiet j k s))
    (hf : ∀ b t, Quiet i k s₀ (a, b) t → (f b).Gives c t Q) : (r >>= f).Gives c s Q :=
  Gives.bind hr fun b t hb => hf b t (h.andThen hb)

lemma takes {x : Token} {t} (h : Quiet i j s₀ a s) (hk : kind.Plain) (hx : x.kind = kind)
    (ht : Takes s x t) : Quiet i j s₀ a t :=
  h.after ((ht.plain (hx ▸ hk)).deeper j)

lemma expect {message} {f : Token → Parse γ} (h : Quiet i j s₀ a s) (hk : kind.Plain)
    (hf : ∀ x t, Quiet i j s₀ a t → (f x).Gives c t Q) :
    (expect kind message >>= f).Gives c s Q :=
  .expect fun x t hx ht => hf x t (h.takes hk hx ht)

lemma accept? {f : Option Token → Parse γ} (h : Quiet i j s₀ a s) (hk : kind.Plain)
    (yes : ∀ x t, Quiet i j s₀ a t → (f (some x)).Gives c t Q) (no : (f none).Gives c s Q) :
    (accept? kind >>= f).Gives c s Q :=
  .accept? (fun x t hx ht => yes x t (h.takes hk hx ht)) no

lemma accept (h : Quiet i j s₀ a s) (hk : kind.Plain) (yes : ∀ t, Quiet i j s₀ a t → p.Gives c t Q)
    (no : q.Gives c s Q) : (accept kind >>= fun b => if b = true then p else q).Gives c s Q :=
  .accept (fun _ t hx ht => yes t (h.takes hk hx ht)) no

lemma advance {f : Token → Parse γ} (h : Quiet i j s₀ a s) (hc : c.eof.kind = .endOfInput)
    (hk : (s.rest.headD c.eof).kind.Plain ∧ (s.rest.headD c.eof).kind ≠ .endOfInput)
    (hf : ∀ x t, Quiet i j s₀ a t → (f x).Gives c t Q) : (advance >>= f).Gives c s Q :=
  .advance hc hk.2 fun x t hx ht => hf x t (h.takes hk.1 (congrArg Token.kind hx) ht)

end Quiet

end DynScript

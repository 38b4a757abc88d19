import DynScript.Proofs.Reading

/-!
# Reading sequences and declarations

A block is read declaration by declaration.
-/

namespace DynScript

open List Stmt

/-! ### Sequences -/

section

variable {α : Type} [Code α] {i j : Nat} {s t u v : ParseState} {a : α} {l : List α}

lemma Quiet.none (s) : Quiet i i s ([] : List α) s :=
  (Quiet.refl s).map (by simp [Code.Bound]) rfl (by simp [Code.Lands])

lemma Quiet.one (h : Quiet i j s a u) : Quiet i j s [a] u :=
  h.map (by simp [Code.Bound]) (by simp [Code.binders]) (by simp [Code.Lands])

lemma Quiet.cons (h : Quiet 0 0 s (a, l) u) : Quiet 0 0 s (a :: l) u :=
  h.map (by simp +contextual [Code.Bound]) rfl (by simp +contextual [Code.Lands])

lemma Quiet.more {x} (h : Quiet 0 0 s a t) (ht : Takes t x v) (hx : x.kind = .comma)
    (g : Quiet 0 0 v l u) : Quiet 0 0 s (a :: l) u :=
  (h.andThen ((ht.plain (by rw [hx]; decide)).before g)).cons

lemma Parse.quiet_commaSeparated {c} {item : Parse α} (hi : ∀ s, item.Gives c s (Quiet 0 0 s))
    (n : Nat) (s) : (commaSeparated item n).Gives c s (Quiet 0 0 s) :=
  gives_commaSeparated hi Quiet.one Quiet.more n s

lemma Parse.quiet_listed {c} {item : Parse α} {close} (hi : ∀ s, item.Gives c s (Quiet 0 0 s)) (s) :
    (listed item close).Gives c s (Quiet 0 0 s) :=
  gives_listed (Quiet.none _) hi Quiet.one Quiet.more s

lemma Quiet.nothing (h : Quiet i j s () u) : Quiet i j s (Option.none : Option α) u :=
  h.map (by simp [Code.Bound]) rfl (by simp [Code.Lands])

lemma Quiet.just (h : Quiet i j s a u) : Quiet i j s (some a) u :=
  h.map (by simp [Code.Bound]) (by simp [Code.binders]) (by simp [Code.Lands])

lemma Quiet.literal {value place} (h : Quiet i j s () u) :
    Quiet i j s (Expr.literal value place) u :=
  h.map (by simp [Code.Bound, Expr.Bound]) (by simp [Code.binders, Expr.binders])
    (by simp [Code.Lands, Expr.Lands])

lemma Quiet.read {slot place} (h : Quiet i j s () u) (hs : slot ∈ u.scopes.visible) :
    Quiet i j s (Expr.read slot place) u :=
  h.map (by simp [Code.Bound, Expr.Bound, hs]) (by simp [Code.binders, Expr.binders])
    (by simp [Code.Lands, Expr.Lands])

lemma Quiet.boxed {e : Expr} (h : Quiet i j s e u) : Quiet i j s e.boxed u :=
  h.map Expr.bound_boxed.2 Expr.binders_boxed Expr.lands_boxed.2

end

/-! ### Declarations -/

/-- The label that a statement places. -/
def Stmt.target? : Stmt → Option Label
  | .label target _ => some target
  | _ => none

/-- The labels that statements place. -/
def Stmt.targets (l : List Stmt) : List Label :=
  l.filterMap target?

lemma Stmt.labelAmong_of_mem {l} {label} (h : label ∈ targets l) :
    Stmt.LabelAmong l label.id := by
  obtain ⟨s, hs, ht⟩ := mem_filterMap.1 h
  cases s with
  | label target place =>
    obtain rfl : target = label := by simpa [target?] using ht
    exact ⟨target, place, hs, rfl⟩
  | _ => simp [target?] at ht

/-- From the scope `s` to the scope `u` the labels `ls` were placed and no others; those that are not
placed yet have other names. -/
def Places (ls : List Label) (s u : Scope) : Prop :=
  ∀ name e, u.label? name = some e →
    (e.placed = true → e.label ∈ ls ∨
      ∃ f, s.label? name = some f ∧ f.placed = true ∧ f.label = e.label) ∧
    (e.placed = false → s.label? name = some e ∧ name ∉ ls.map (·.name))

lemma Places.append {ls ms s t u} (h : Places ls s t) (k : Places ms t u) :
    Places (ls ++ ms) s u := by
  intro name e he
  obtain ⟨k₁, k₂⟩ := k name e he
  refine ⟨fun hp => ?_, fun hp => ?_⟩
  · rcases k₁ hp with hm | ⟨f, hf, hfp, hfe⟩
    · exact .inl (mem_append_right _ hm)
    · rw [← hfe]
      exact ((h name f hf).1 hfp).imp_left (mem_append_left _)
  · obtain ⟨ht, hm⟩ := k₂ hp
    obtain ⟨hs, hl⟩ := (h name e ht).2 hp
    exact ⟨hs, by simp_all⟩

lemma Places.of_labels_eq {s u : Scope} (h : u.labels = s.labels) : Places [] s u := by
  intro name e he
  simp only [Scope.label?, h] at he
  exact ⟨fun hp => .inr ⟨e, he, hp, rfl⟩, fun _ => ⟨he, by simp⟩⟩

/-! ### Announced labels -/

namespace Parse

variable {L : List String} {t : ScopeTable}

/-- Every label of the scope is announced and has its name in `L`. -/
def Awaits (L : List String) (s : Scope) : Prop :=
  ∀ name e, s.label? name = some e → e.placed = false ∧ name ∈ L

lemma announced_eq (t name) :
    announced t name = t ∨ ∃ entry : LabelEntry, entry.placed = false ∧
      entry.label.name = name.lexeme ∧ announced t name =
        { t with nextLabel := t.nextLabel + 1 }.setCurrent (t.current.addLabel entry) := by
  unfold announced
  split
  · exact .inl rfl
  · rename_i h
    refine .inr ⟨⟨⟨name.lexeme, .user, t.nextLabel⟩, name.location, false⟩, rfl, rfl, ?_⟩
    rw [ScopeTable.announce, ScopeTable.defineLabel_eq, if_neg h]

lemma awaits_addLabel {s} {entry : LabelEntry} (h : Awaits L s) (hp : entry.placed = false)
    (hn : entry.label.name ∈ L) : Awaits L (s.addLabel entry) := by
  intro name e he
  simp only [Scope.label?, Scope.addLabel, find?_append] at he
  cases hf : s.labels.find? (·.label.name = name) with
  | some f =>
    obtain rfl : f = e := by simpa [hf] using he
    exact h name f hf
  | none =>
    simp only [hf, Option.none_or, find?_singleton, decide_eq_true_eq] at he
    split at he <;> cases he
    exact ⟨hp, ‹entry.label.name = name› ▸ hn⟩

lemma announced_names (names : List Token) (hL : ∀ x ∈ names, x.lexeme ∈ L)
    (h : Awaits L t.current) :
    Awaits L (names.foldl announced t).current ∧
    (names.foldl announced t).current.slots = t.current.slots ∧
    (names.foldl announced t).nextSlot = t.nextSlot := by
  induction names generalizing t with
  | nil => exact ⟨h, rfl, rfl⟩
  | cons x names ih =>
    have hx := hL x mem_cons_self
    have hL' : ∀ y ∈ names, y.lexeme ∈ L := fun y hy => hL y (mem_cons_of_mem _ hy)
    rw [foldl_cons]
    rcases announced_eq t x with he | ⟨entry, hp, hn, he⟩
    · rw [he]
      exact ih hL' h
    · rw [he]
      have := ih hL' (t := { t with nextLabel := t.nextLabel + 1 }.setCurrent
        (t.current.addLabel entry)) (by simpa using awaits_addLabel h hp (hn ▸ hx))
      simpa [Scope.addLabel] using this

lemma reads_of_announceLabels {c} {s u : ParseState} (hs : s.scopes.current.labels = [])
    (h : announceLabels.run c s = .ok () u) :
    Reads 1 1 s () u ∧ u.rest = s.rest ∧
    Awaits ((labelsAhead 0 s.rest).map (·.lexeme)) u.scopes.current := by
  have ho := onward_of_ok h
  cases h
  have hw : Awaits ((labelsAhead 0 s.rest).map (·.lexeme)) s.scopes.current := by
    intro name e he
    simp [Scope.label?, hs] at he
  obtain ⟨ha, hl, hn⟩ := announced_names (labelsAhead 0 s.rest)
    (fun x hx => mem_map_of_mem hx) hw
  exact ⟨⟨ho, trivial, ⟨[], by simpa using hl, Fresh.nil⟩, fun _ => trivial,
    fun _ => ⟨[], rfl, .nil⟩⟩, rfl, ha⟩

end Parse

/-- Declarations have been read from `s` to `u`: without an error, the labels ahead of `s` are those
declared and those ahead of `u`, none of those declared had been placed before, and no announced
name is declared twice. -/
structure Declares (s : ParseState) (l : List Stmt) (u : ParseState) : Prop
    extends Reads 1 1 s l u where
  ahead : u.errors = s.errors → ∃ seg, s.rest = seg ++ u.rest ∧
    ∀ r, (Parse.labelsAhead 0 (seg ++ r)).map (·.lexeme) =
      (targets l).map (·.name) ++ (Parse.labelsAhead 0 r).map (·.lexeme)
  places : u.errors = s.errors → Places (targets l) s.scopes.current u.scopes.current
  unplaced : u.errors = s.errors → ∀ x ∈ targets l, ∀ e,
    s.scopes.current.label? x.name = some e → e.placed = false
  distinct : u.errors = s.errors → (∀ x ∈ targets l, (s.scopes.current.label? x.name).isSome) →
    ((targets l).map (·.name)).Nodup

namespace Declares

variable {s t u : ParseState} {l m : List Stmt} {a : Stmt}

lemma nil (s) : Declares s [] s :=
  ⟨(Quiet.none s).toReads, fun _ => ⟨[], rfl, fun _ => rfl⟩, fun _ => .of_labels_eq rfl,
    by simp [targets], fun _ _ => .nil⟩

lemma names_ahead (h : Declares s l u) (he : u.errors = s.errors) :
    (Parse.labelsAhead 0 s.rest).map (·.lexeme) =
      (targets l).map (·.name) ++ (Parse.labelsAhead 0 u.rest).map (·.lexeme) := by
  obtain ⟨seg, hs, hn⟩ := h.ahead he
  rw [hs, hn]

lemma append (h : Declares s l t) (k : Declares t m u) : Declares s (l ++ m) u where
  toReads := (h.toReads.andThen k.toReads).map
    (fun hb a ha => (mem_append.1 ha).elim (hb.1 a) (hb.2 a))
    (by simp [Code.binders]) (fun hl a ha => (mem_append.1 ha).elim (hl.1 a) (hl.2 a))
  ahead he := by
    obtain ⟨h₁, h₂⟩ := errors_eq_of_onward h.onward k.onward he
    obtain ⟨a, ha, hl⟩ := h.ahead h₁
    obtain ⟨b, hb, hm⟩ := k.ahead h₂
    refine ⟨a ++ b, by rw [ha, hb, append_assoc], fun r => ?_⟩
    rw [append_assoc, hl, hm]
    simp [targets]
  places he := by
    obtain ⟨h₁, h₂⟩ := errors_eq_of_onward h.onward k.onward he
    have := (h.places h₁).append (k.places h₂)
    rwa [targets, targets, ← filterMap_append] at this
  unplaced he x hx e hl := by
    obtain ⟨h₁, h₂⟩ := errors_eq_of_onward h.onward k.onward he
    rw [targets, filterMap_append, mem_append] at hx
    rcases hx with hx | hx
    · exact h.unplaced h₁ x hx e hl
    · -- a label that is placed stays so
      obtain ⟨f, hf, -, placed⟩ := h.onward.scopes.label? x.name e hl
      have := k.unplaced h₂ x hx f hf
      grind
  distinct he known := by
    obtain ⟨h₁, h₂⟩ := errors_eq_of_onward h.onward k.onward he
    have split : targets (l ++ m) = targets l ++ targets m := filterMap_append
    rw [split] at known ⊢
    obtain ⟨first, second⟩ := forall_mem_append.1 known
    have kept {x : Label} (hx : (s.scopes.current.label? x.name).isSome) :
        ∃ f, t.scopes.current.label? x.name = some f := by
      obtain ⟨e, he⟩ := Option.isSome_iff_exists.1 hx
      obtain ⟨f, hf, -⟩ := h.onward.scopes.label? x.name e he
      exact ⟨f, hf⟩
    rw [map_append, nodup_append]
    refine ⟨h.distinct h₁ first, k.distinct h₂ fun x hx => Option.isSome_iff_exists.2 (kept (second x hx)),
      ?_⟩
    intro name hl other hm same
    obtain ⟨y, hy, rfl⟩ := mem_map.1 hm
    obtain ⟨f, hf⟩ := kept (second y hy)
    -- what the first part declares is placed behind it, so the second part cannot declare it
    exact ((h.places h₁ _ f hf).2 (k.unplaced h₂ y hy f hf)).2 (same ▸ hl)

lemma of_adds {new} (h : Adds new 0 0 s a u) (hl : a.target? = none) : Declares s [a] u where
  toReads := (h.toReads.deeper 1).map (by simp [Code.Bound]) (by simp [Code.binders])
    (by simp [Code.Lands])
  ahead he := by
    obtain ⟨seg, hs, hn⟩ := h.shift he
    have shift (r : List Token) : Parse.labelsAhead 0 (seg ++ r) = Parse.labelsAhead 0 r := hn 0 r
    exact ⟨seg, hs, fun r => by simp [shift, targets, hl]⟩
  places _ := by
    have ht : targets [a] = [] := by simp [targets, hl]
    rw [ht]
    exact .of_labels_eq h.labels
  unplaced _ := by simp [targets, hl]
  distinct _ _ := by simp [targets, hl]

lemma mem_targets (h : Declares s l u) (he : u.errors = s.errors)
    (hw : Parse.Awaits ((Parse.labelsAhead 0 s.rest).map (·.lexeme)) s.scopes.current)
    (hu : Parse.labelsAhead 0 u.rest = []) {name} {e} (hl : u.scopes.current.label? name = some e) :
    e.label ∈ targets l := by
  have ha := h.names_ahead he
  obtain ⟨h₁, h₂⟩ := h.places he name e hl
  cases hp : e.placed with
  | true =>
    refine (h₁ hp).resolve_right ?_
    rintro ⟨f, hf, hfp, -⟩
    simp [(hw name f hf).1] at hfp
  | false =>
    obtain ⟨hs, hn⟩ := h₂ hp
    have := (hw name e hs).2
    rw [ha, hu, map_nil, append_nil] at this
    exact absurd this hn

lemma of_error (h : s.Onward u) (he : u.errors ≠ s.errors) : Declares s [] u where
  onward := h
  bound := by simp [Code.Bound]
  fresh := by
    obtain ⟨new, hn, hf⟩ := h.scopes.slots
    exact ⟨new, hn, by simpa [Code.binders] using hf⟩
  lands k := absurd k he
  shift k := absurd k he
  ahead k := absurd k he
  places k := absurd k he
  unplaced k := absurd k he
  distinct k := absurd k he

end Declares

end DynScript

import DynScript.Proofs.Coding
import DynScript.Proofs.ParseRuns

/-!
# Like scope tables

Two parses of like tokens keep like scope tables: the same names lead to like slots and labels.
-/

namespace DynScript

open List

/-- How a scope table may differ from another: the relation on code, the limits of the related
numbers, the numbers both went on from, the slots that come first in the second global scope, and
the labels that only this one has. -/
structure Overlay where
  coding : Coding
  lawful : coding.Lawful
  slotLimit : Nat
  labelLimit : Nat
  slotOrigins : Nat × Nat
  labelOrigins : Nat × Nat
  before : List Slot
  extra : List String
  kept : String → Option LabelEntry

namespace Overlay

variable (o : Overlay)

/-- The slots that come first in the second scope, if it is the global one. -/
def beforeAt (root : Bool) : List Slot :=
  if root then o.before else []

/-- The names of the labels that only the second scope has, if it is the global one. -/
def extraAt (root : Bool) : List String :=
  if root then o.extra else []

/-- The second table has more than the first one. -/
def Proper : Prop :=
  o.before ≠ [] ∨ o.extra ≠ []

/-- The numbers that a table has handed out are within the limits, and it has none of the labels that
only the second table has. -/
structure Within (t : ScopeTable) : Prop where
  slots : t.nextSlot ≤ o.slotLimit
  labels : t.nextLabel ≤ o.labelLimit
  clear : ∀ name ∈ o.extra, t.globals.label? name = none

end Overlay

/-! ### The relations -/

section

variable (o : Overlay)

/-- Entries of like labels. -/
structure LabelEntry.Like (e e' : LabelEntry) : Prop where
  label : o.coding.label e.label e'.label
  placed : e.placed = e'.placed

/-- Scopes in which the same names lead to the like. -/
structure Scope.Like (root : Bool) (s s' : Scope) : Prop where
  kind : s.kind = s'.kind
  slots : ∃ own, s'.slots = o.beforeAt root ++ own ∧
    Forall₂ o.coding.slot s.slots own
  apart : ∀ x ∈ s.slots, ∀ y ∈ o.beforeAt root, y.name ≠ x.name
  labels : ∀ name ∉ o.extraAt root,
    Option.Rel (LabelEntry.Like o) (s.label? name) (s'.label? name)
  kept : ∀ name ∈ o.extraAt root, s'.label? name = o.kept name

/-- Tables of like scopes. -/
structure ScopeTable.Like (t t' : ScopeTable) : Prop where
  inner : Forall₂ (Scope.Like o false) t.inner t'.inner
  globals : t.globals.Like o true t'.globals
  linked : Forall₂ o.coding.slot t.linked.slots (o.before ++ t'.linked.slots)
  unlabeled : t.linked.labels = [] ∧ t'.linked.labels = []
  nextSlot : ∀ k, t.nextSlot + k < o.slotLimit →
    o.coding.slotNumber (t.nextSlot + k) (t'.nextSlot + k)
  nextLabel : ∀ k, t.nextLabel + k < o.labelLimit →
    o.coding.labelNumber (t.nextLabel + k) (t'.nextLabel + k)
  slotsInStep : t.nextSlot + o.slotOrigins.2 = t'.nextSlot + o.slotOrigins.1
  labelsInStep : t.nextLabel + o.labelOrigins.2 = t'.nextLabel + o.labelOrigins.1

end

variable {o : Overlay}

/-! ### Names of slots -/

section

variable {c : Coding} (hc : c.Lawful) {l l' : List Slot} (h : Forall₂ c.slot l l')

include hc h

lemma rel_find_name (name) :
    Option.Rel c.slot (l.find? (·.name = name)) (l'.find? (·.name = name)) := by
  induction h with
  | nil => exact .none
  | @cons s s' l l' hs _ ih =>
    simp only [find?_cons, (hc.slot_eq hs).1]
    split
    · exact .some hs
    · exact ih

lemma Slot.names_eq : l.map (·.name) = l'.map (·.name) := by
  induction h with
  | nil => rfl
  | cons hs _ ih => rw [map_cons, map_cons, (hc.slot_eq hs).1, ih]

end

lemma rel_trans_none {α β : Type} {R : α → β → Prop} {x y} (h : Option.Rel R x y) :
    x = none ↔ y = none := by
  cases h <;> simp

namespace Scope.Like

variable {root : Bool} {s s' : Scope}

lemma empty (kind) : Scope.Like o false { kind := kind } { kind := kind } where
  kind := rfl
  slots := ⟨[], rfl, .nil⟩
  apart := forall_mem_nil _
  labels _ _ := .none
  kept := forall_mem_nil _

lemma find_before_eq_none (h : s.Like o root s') {name x} (hx : s.slot? name = some x) :
    (o.beforeAt root).find? (·.name = name) = none := by
  have hm := mem_of_find?_eq_some hx
  have hn : x.name = name := by simpa using find?_some hx
  rw [find?_eq_none]
  intro y hy
  simpa [hn] using h.apart x hm y hy

lemma slot?_of_some (h : s.Like o root s') {name x} (hx : s.slot? name = some x) :
    ∃ x', s'.slot? name = some x' ∧ o.coding.slot x x' := by
  obtain ⟨own, he, hs⟩ := h.slots
  have hr := rel_find_name o.lawful hs name
  have none := h.find_before_eq_none hx
  unfold Scope.slot? at hx ⊢
  rw [he, find?_append, none, Option.none_or]
  rw [hx] at hr
  generalize own.find? _ = y at hr ⊢
  cases hr with
  | some hr => exact ⟨_, rfl, hr⟩

lemma slot?_of_none (h : s.Like o root s') {name} (hx : s.slot? name = none) :
    s'.slot? name = (o.beforeAt root).find? (·.name = name) := by
  obtain ⟨own, he, hs⟩ := h.slots
  have hr := rel_find_name o.lawful hs name
  unfold Scope.slot? at hx ⊢
  rw [hx] at hr
  rw [he, find?_append, (rel_trans_none hr).1 rfl, Option.or_none]

lemma slot?_inner (h : s.Like o false s') (name) :
    Option.Rel o.coding.slot (s.slot? name) (s'.slot? name) := by
  cases hx : s.slot? name with
  | some x =>
    obtain ⟨x', he, hl⟩ := h.slot?_of_some hx
    rw [he]
    exact .some hl
  | none =>
    rw [h.slot?_of_none hx]
    exact .none

lemma slots_inner (h : s.Like o false s') :
    Forall₂ o.coding.slot s.slots s'.slots := by
  obtain ⟨own, he, hs⟩ := h.slots
  rw [he]
  exact hs

lemma names_eq (h : s.Like o root s') (hb : o.beforeAt root = []) :
    s.slots.map (·.name) = s'.slots.map (·.name) := by
  obtain ⟨own, he, hs⟩ := h.slots
  rw [he, hb, nil_append, Slot.names_eq o.lawful hs]

lemma addSlot (h : s.Like o root s') {x x'} (hx : o.coding.slot x x') (hn : s'.slot? x.name = none) :
    (s.addSlot x).Like o root (s'.addSlot x') where
  kind := h.kind
  slots := by
    obtain ⟨own, he, hs⟩ := h.slots
    refine ⟨own ++ [x'], by simp [Scope.addSlot, he], ?_⟩
    exact rel_append hs (.cons hx .nil)
  apart := by
    obtain ⟨own, he, -⟩ := h.slots
    intro y hy z hz
    rcases mem_append.1 hy with hy | hy
    · exact h.apart y hy z hz
    · obtain rfl := mem_singleton.1 hy
      unfold Scope.slot? at hn
      rw [he, find?_eq_none] at hn
      simpa using hn z (mem_append_left _ hz)
  labels := h.labels
  kept := h.kept

end Scope.Like

/-! ### Labels of scopes -/

namespace Scope

variable {root : Bool} {s s' : Scope}

lemma label?_addLabel_eq (s : Scope) (e) (name) :
    (s.addLabel e).label? name =
      (s.label? name).or (if e.label.name = name then some e else none) := by
  simp [label?, addLabel, find?_append, find?_singleton]

lemma name_of_label? {name} {e} (h : s.label? name = some e) : e.label.name = name := by
  simpa using find?_some h

lemma label?_replace {name} {e f : LabelEntry} (he : s.label? name = some e)
    (hf : f.label = e.label) (m) :
    Scope.label? { s with labels := s.labels.map fun x => if x.label = f.label then f else x } m =
      if m = name then some f else s.label? m := by
  have same (x : LabelEntry) : (if x.label = f.label then f else x).label = x.label := by
    split
    · rw [‹x.label = f.label›]
    · rfl
  have found : Scope.label?
      { s with labels := s.labels.map fun x => if x.label = f.label then f else x } m =
      (s.label? m).map fun x => if x.label = f.label then f else x := by
    simp only [label?, find?_map, Function.comp_def, same]
  rw [found]
  by_cases hm : m = name
  · subst hm
    simp [he, hf]
  · rw [if_neg hm]
    cases hx : s.label? m with
    | none => rfl
    | some x =>
      have : x.label ≠ f.label := by
        rintro h
        exact hm (by rw [← name_of_label? hx, h, hf, name_of_label? he])
      simp [this]

namespace Like

lemma addLabel (h : s.Like o root s') {e e'} (he : LabelEntry.Like o e e')
    (hn : e.label.name ∉ o.extraAt root) : (s.addLabel e).Like o root (s'.addLabel e') where
  kind := h.kind
  slots := h.slots
  apart := h.apart
  labels name hname := by
    have hl := h.labels name hname
    rw [label?_addLabel_eq, label?_addLabel_eq, (o.lawful.label_eq he.label).1]
    generalize s.label? name = x at hl
    generalize s'.label? name = x' at hl
    cases hl with
    | some hl => exact .some hl
    | none =>
      rw [Option.none_or, Option.none_or]
      split
      · exact .some he
      · exact .none
  kept name hname := by
    have : e'.label.name ≠ name := by
      rintro rfl
      exact hn ((o.lawful.label_eq he.label).1 ▸ hname)
    rw [label?_addLabel_eq, h.kept name hname, if_neg this, Option.or_none]

lemma replaceLabel (h : s.Like o root s') {name} (hn : name ∉ o.extraAt root) {e e' f f'}
    (he : s.label? name = some e) (he' : s'.label? name = some e') (hff : LabelEntry.Like o f f')
    (hf : f.label = e.label) (hf' : f'.label = e'.label) :
    Scope.Like o root
      { s with labels := s.labels.map fun x => if x.label = f.label then f else x }
      { s' with labels := s'.labels.map fun x => if x.label = f'.label then f' else x } where
  kind := h.kind
  slots := h.slots
  apart := h.apart
  labels m hm := by
    rw [label?_replace he hf, label?_replace he' hf']
    split
    · exact .some hff
    · exact h.labels m hm
  kept m hm := by
    have : m ≠ name := by
      rintro rfl
      exact hn hm
    rw [label?_replace he' hf', if_neg this]
    exact h.kept m hm

end Like

end Scope

/-! ### Tables -/

namespace ScopeTable.Like

variable {t t' : ScopeTable}

lemma current (h : t.Like o t') : t.current.Like o t.inner.isEmpty t'.current := by
  have hi := h.inner
  unfold ScopeTable.current
  generalize t.inner = l at hi
  generalize t'.inner = l' at hi
  cases hi with
  | nil => exact h.globals
  | cons hs _ => exact hs

lemma setCurrent (h : t.Like o t') {s s' : Scope} (hs : s.Like o t.inner.isEmpty s') :
    (t.setCurrent s).Like o (t'.setCurrent s') := by
  obtain ⟨linked, globals, inner, nextSlot, nextLabel⟩ := t
  obtain ⟨linked', globals', inner', nextSlot', nextLabel'⟩ := t'
  have hi := h.inner
  cases hi with
  | nil => exact { h with globals := hs }
  | cons _ hi => exact { h with inner := .cons hs hi }

lemma enter (h : t.Like o t') (kind) : (t.enter kind).Like o (t'.enter kind) :=
  { h with inner := .cons (.empty kind) h.inner }

lemma numbers (h : t.Like o t') (n m : Nat) :
    ScopeTable.Like o { t with nextSlot := t.nextSlot + n, nextLabel := t.nextLabel + m }
      { t' with nextSlot := t'.nextSlot + n, nextLabel := t'.nextLabel + m } :=
  { h with
    nextSlot := fun k hk => by
      have := h.nextSlot (n + k) (by simpa [Nat.add_assoc] using hk)
      simpa [Nat.add_assoc] using this
    nextLabel := fun k hk => by
      have := h.nextLabel (m + k) (by simpa [Nat.add_assoc] using hk)
      simpa [Nat.add_assoc] using this
    slotsInStep := by
      have := h.slotsInStep
      dsimp only
      omega
    labelsInStep := by
      have := h.labelsInStep
      dsimp only
      omega }

/-! ### Resolving names -/

lemma lookup (h : t.Like o t') (name) :
    Option.Rel o.coding.slot (t.lookup name) (t'.lookup name) := by
  -- At the foot of the table, what the first one finds among the linked slots the second one may
  -- find before the others of its global scope.
  have foot : Option.Rel o.coding.slot
      ([t.globals, t.linked].findSome? (·.slot? name))
      ([t'.globals, t'.linked].findSome? (·.slot? name)) := by
    have hl := rel_find_name o.lawful h.linked name
    simp only [findSome?_cons, findSome?_nil]
    cases hx : t.globals.slot? name with
    | some x =>
      obtain ⟨x', he, hx⟩ := h.globals.slot?_of_some hx
      rw [he]
      exact .some hx
    | none =>
      rw [h.globals.slot?_of_none hx]
      rw [find?_append] at hl
      change Option.Rel _ (t.linked.slot? name) _ at hl
      simp only [Overlay.beforeAt, if_true]
      generalize t.linked.slot? name = a at hl ⊢
      generalize o.before.find? _ = b at hl ⊢
      generalize ht : t'.linked.slots.find? _ = c at hl
      rw [Scope.slot?, ht]
      cases b <;> cases hl <;> constructor <;> assumption
  have hi := h.inner
  unfold ScopeTable.lookup chain
  generalize t.inner = l at hi
  generalize t'.inner = l' at hi
  induction hi with
  | nil => exact foot
  | @cons s s' l l' hs _ ih =>
    have hf := hs.slot?_inner name
    simp only [cons_append, findSome?_cons]
    generalize s.slot? name = x at hf
    generalize s'.slot? name = x' at hf
    cases hf with
    | some hf => exact .some hf
    | none => exact ih

lemma lookupLabel (h : t.Like o t') (hc : o.Within t) (name) :
    Option.Rel (LabelEntry.Like o) (t.lookupLabel name) (t'.lookupLabel name) ∨
      t.lookupLabel name = none ∧ o.extra ≠ [] := by
  have foot : Option.Rel (LabelEntry.Like o) (labelIn name [t.globals, t.linked])
      (labelIn name [t'.globals, t'.linked]) ∨
        labelIn name [t.globals, t.linked] = none ∧ o.extra ≠ [] := by
    simp only [labelIn, Scope.label?, h.unlabeled.1, h.unlabeled.2, find?_nil, ite_self]
    by_cases hn : name ∈ o.extra
    · have clear := hc.clear name hn
      unfold Scope.label? at clear
      rw [clear]
      exact .inr ⟨rfl, ne_nil_of_mem hn⟩
    · have hl := h.globals.labels name hn
      unfold Scope.label? at hl
      generalize t.globals.labels.find? _ = x at hl ⊢
      generalize t'.globals.labels.find? _ = x' at hl ⊢
      cases hl with
      | none => exact .inl .none
      | some hl => exact .inl (.some hl)
  have hi := h.inner
  unfold ScopeTable.lookupLabel chain
  generalize t.inner = l at hi
  generalize t'.inner = l' at hi
  induction hi with
  | nil => exact foot
  | @cons s s' l l' hs _ ih =>
    have hf := hs.labels name (not_mem_nil)
    simp only [cons_append, labelIn]
    rw [← hs.kind]
    generalize s.label? name = x at hf ⊢
    generalize s'.label? name = x' at hf ⊢
    cases hf with
    | some hf => exact .inl (.some hf)
    | none =>
      dsimp only
      split
      · exact .inl .none
      · exact ih

lemma names (h : t.Like o t') (hb : o.before = []) : t.names = t'.names := by
  have hl := Slot.names_eq o.lawful h.linked
  rw [hb, nil_append] at hl
  have inner : t.inner.flatMap (fun s => s.slots.map (·.name)) =
      t'.inner.flatMap fun s => s.slots.map (·.name) := by
    have hi := h.inner
    generalize t.inner = l at hi
    generalize t'.inner = l' at hi
    induction hi with
    | nil => rfl
    | cons hs _ ih => rw [flatMap_cons, flatMap_cons, ih, hs.names_eq rfl]
  have globals := h.globals.names_eq hb
  simp only [ScopeTable.names, chain, flatMap_append, flatMap_cons, flatMap_nil,
    inner, hl, globals]

lemma similar (h : t.Like o t') (hb : o.before = []) (name) (limit : Int) :
    t.similar name limit = t'.similar name limit := by
  unfold ScopeTable.similar
  rw [h.names hb]

end ScopeTable.Like

/-! ### Declarations -/

/-- Like outcomes on like tables: like results, the same objection, or a difference owed to what
only the second table has. -/
inductive Overlay.Outcome (o : Overlay) {α β : Type} (R : α → β → Prop)
    (E : ScopeError → ScopeError → Prop) :
    Except ScopeError α × ScopeTable → Except ScopeError β × ScopeTable → Prop where
  | ok {a : α} {b : β} {t t' : ScopeTable} (h : R a b) (ht : t.Like o t') :
    Outcome o R E (.ok a, t) (.ok b, t')
  | refused {a : α} {e} {t t'} (h : o.Proper) :
    Outcome o R E (.ok a, t) (.error e, t')
  | error {e e'} {t t' : ScopeTable} (h : E e e') (ht : t.Like o t') :
    Outcome o R E (.error e, t) (.error e', t')

namespace ScopeTable.Like

variable {t t' : ScopeTable} {name : String} {location location' : Option Location}

/-- Objections that differ in their places at most. -/
def SameObjection (location location' : Option Location) (e e' : ScopeError) : Prop :=
  location = location' → e = e'

lemma newSlot (h : t.Like o t') (hl : Option.Rel o.coding.place location location')
    (hw : t.nextSlot < o.slotLimit) :
    o.coding.hidden (t.newSlot "switch" location false).1 (t'.newSlot "switch" location' false).1 ∧
      (t.newSlot "switch" location false).2.Like o (t'.newSlot "switch" location' false).2 :=
  ⟨o.lawful.newHidden (h.nextSlot 0 hw) hl, h.numbers 1 0⟩

/-- **Like declarations of variables.** -/
theorem define (h : t.Like o t') {constant : Bool} (hn : o.coding.name name)
    (hl : Option.Rel o.coding.place location location') (hw : t.nextSlot < o.slotLimit) :
    o.Outcome (fun s s' => o.coding.slot s s' ∧ s.constant = constant)
      (SameObjection location location')
      (t.define name location constant) (t'.define name location' constant) := by
  rw [define_eq, define_eq]
  have current := h.current
  have objection : SameObjection location location' (.variableDeclared name location)
      (.variableDeclared name location') := fun e => by rw [e]
  cases hx : t.current.slot? name with
  | some x =>
    obtain ⟨x', he, -⟩ := current.slot?_of_some hx
    simp only [he, Option.isSome_some, ↓reduceIte]
    exact .error objection (h.numbers 1 0)
  | none =>
    cases hx' : t'.current.slot? name with
    | some x' =>
      refine .refused (.inl fun hb => ?_)
      rw [current.slot?_of_none hx] at hx'
      unfold Overlay.beforeAt at hx'
      split at hx' <;> simp [hb] at hx'
    | none =>
      have slot : o.coding.slot ⟨name, constant, location, t.nextSlot⟩
        ⟨name, constant, location', t'.nextSlot⟩ := o.lawful.newSlot hn (h.nextSlot 0 hw) hl
      exact .ok ⟨slot, rfl⟩ ((h.numbers 1 0).setCurrent (current.addSlot slot hx'))

lemma defineLabel (h : t.Like o t') {kind} {placed : Bool} (hn : name ∉ o.extraAt t.inner.isEmpty)
    (hw : t.nextLabel < o.labelLimit) :
    o.Outcome (LabelEntry.Like o) (SameObjection location location')
      (t.defineLabel name kind location placed) (t'.defineLabel name kind location' placed) := by
  rw [defineLabel_eq, defineLabel_eq]
  have hl := h.current.labels name hn
  have known : (t.current.label? name).isSome = (t'.current.label? name).isSome := by
    generalize t.current.label? name = x at hl
    generalize t'.current.label? name = x' at hl
    cases hl <;> rfl
  rw [← known]
  split
  · exact .error (fun e => by rw [e]) (h.numbers 0 1)
  · have entry : LabelEntry.Like o ⟨⟨name, kind, t.nextLabel⟩, location, placed⟩
      ⟨⟨name, kind, t'.nextLabel⟩, location', placed⟩ := ⟨o.lawful.newLabel (h.nextLabel 0 hw), rfl⟩
    exact .ok entry ((h.numbers 0 1).setCurrent (h.current.addLabel entry hn))

/-- **Like placements of labels.** -/
theorem place (h : t.Like o t') (hn : name ∉ o.extraAt t.inner.isEmpty)
    (hw : t.current.label? name = none → t.nextLabel < o.labelLimit) :
    o.Outcome (LabelEntry.Like o) (SameObjection location location')
      (t.place name location) (t'.place name location') := by
  have hl := h.current.labels name hn
  unfold ScopeTable.place
  cases hx : t.current.label? name with
  | none =>
    rw [hx] at hl
    rw [(rel_trans_none hl).1 rfl]
    exact h.defineLabel hn (hw hx)
  | some e =>
    rw [hx] at hl
    cases hx' : t'.current.label? name with
    | none => exact absurd ((rel_trans_none hl).2 hx') nofun
    | some e' =>
      rw [hx'] at hl
      obtain hl : LabelEntry.Like o e e' := by cases hl; assumption
      dsimp only
      rw [← hl.placed]
      split
      · exact .error (fun e => by rw [e]) h
      · have entry : LabelEntry.Like o { e with location := location, placed := true }
          { e' with location := location', placed := true } := ⟨hl.label, rfl⟩
        exact .ok entry (h.setCurrent (h.current.replaceLabel hn hx hx' entry rfl rfl))

lemma announced (h : t.Like o t') {x x' : Token} (hx : x.lexeme = x'.lexeme)
    (hn : x.lexeme ∉ o.extraAt t.inner.isEmpty)
    (hw : (Parse.announced t x).nextLabel ≤ o.labelLimit) :
    (Parse.announced t x).Like o (Parse.announced t' x') := by
  have hl := h.current.labels x.lexeme hn
  unfold Parse.announced at hw ⊢
  simp only [announce, defineLabel_eq, ← hx] at hw ⊢
  generalize t.current.label? x.lexeme = e at hl hw ⊢
  generalize t'.current.label? x.lexeme = e' at hl ⊢
  cases hl with
  | some hl => exact h
  | none =>
    simp only [Option.isSome_none, Bool.false_eq_true, ↓reduceIte, nextLabel_setCurrent] at hw ⊢
    have entry : LabelEntry.Like o ⟨⟨x.lexeme, .user, t.nextLabel⟩, some x.location, false⟩
      ⟨⟨x.lexeme, .user, t'.nextLabel⟩, some x'.location, false⟩ :=
      ⟨o.lawful.newLabel (h.nextLabel 0 hw), rfl⟩
    exact (h.numbers 0 1).setCurrent (h.current.addLabel entry hn)

lemma leave (h : t.Like o t') {u u' : ScopeTable} (hu : u.Like o u') :
    ScopeTable.Like o { t with nextSlot := u.nextSlot, nextLabel := u.nextLabel }
      { t' with nextSlot := u'.nextSlot, nextLabel := u'.nextLabel } :=
  { h with
    nextSlot := hu.nextSlot, nextLabel := hu.nextLabel
    slotsInStep := hu.slotsInStep, labelsInStep := hu.labelsInStep }

end ScopeTable.Like

lemma ScopeTable.isSome_label?_place (t : ScopeTable) (name location) :
    ((t.place name location).2.current.label? name).isSome := by
  cases hx : t.current.label? name with
  | some e =>
    obtain ⟨f, hf, -⟩ := (t.onward_place name location).label? name e hx
    rw [hf]
    rfl
  | none =>
    simp only [place, hx, defineLabel_eq, Option.isSome_none, Bool.false_eq_true, ↓reduceIte,
      current_setCurrent, Scope.label?_addLabel_eq, Option.none_or, Option.isSome_some]

/-! ### Going back -/

namespace Overlay.Within

variable {t u : ScopeTable}

lemma globals_of_onward (h : t.Onward u) :
    t.inner = [] ∧ u.inner = [] ∨ t.inner ≠ [] ∧ u.inner ≠ [] ∧ u.globals = t.globals := by
  have around := h.around
  unfold ScopeTable.around ScopeTable.stack at around
  cases ht : t.inner with
  | nil => cases hu : u.inner <;> simp_all
  | cons s inner =>
    cases hu : u.inner with
    | nil => simp_all
    | cons s' inner' =>
      rw [ht, hu, cons_append, cons_append, tail_cons, tail_cons] at around
      obtain ⟨-, hg⟩ := append_inj' around rfl
      exact .inr ⟨by simp, by simp, singleton_inj.1 hg⟩

lemma isSome_label?_globals (h : t.Onward u) {name} (hn : (t.globals.label? name).isSome) :
    (u.globals.label? name).isSome := by
  rcases globals_of_onward h with ⟨ht, hu⟩ | ⟨-, -, hg⟩
  · obtain ⟨e, he⟩ := Option.isSome_iff_exists.1 hn
    have current : t.current = t.globals := by simp [ScopeTable.current, ht]
    have current' : u.current = u.globals := by simp [ScopeTable.current, hu]
    obtain ⟨f, hf, -⟩ := h.label? name e (current ▸ he)
    rw [← current', hf]
    rfl
  · rwa [hg]

lemma of_onward (h : t.Onward u) (hu : o.Within u) : o.Within t where
  slots := Nat.le_trans h.nextSlot hu.slots
  labels := Nat.le_trans h.nextLabel hu.labels
  clear name hn := by
    by_contra hs
    have := isSome_label?_globals h (Option.isSome_iff_ne_none.2 hs)
    simp [hu.clear name hn] at this

end Overlay.Within

/-! ### Announcing labels -/

lemma isEmpty_inner_announced (t) (x) : (Parse.announced t x).inner.isEmpty = t.inner.isEmpty := by
  rcases Overlay.Within.globals_of_onward (Parse.onward_announced [x] t) with ⟨h, h'⟩ | ⟨h, h', -⟩
  · rw [h]
    exact congrArg List.isEmpty h'
  · rw [isEmpty_eq_false_iff.2 h]
    exact isEmpty_eq_false_iff.2 h'

lemma ScopeTable.Like.foldl_announced {t t' : ScopeTable} (h : t.Like o t') {names names'}
    (hn : Forall₂ (fun x x' => x.lexeme = x'.lexeme) names names')
    (hx : ∀ x ∈ names, x.lexeme ∉ o.extraAt t.inner.isEmpty)
    (hw : (names.foldl Parse.announced t).nextLabel ≤ o.labelLimit) :
    (names.foldl Parse.announced t).Like o (names'.foldl Parse.announced t') := by
  induction hn generalizing t t' with
  | nil => exact h
  | @cons x x' names names' hxx _ ih =>
    have later := Parse.onward_announced names (Parse.announced t x)
    refine ih (h.announced hxx (hx x mem_cons_self) (Nat.le_trans later.nextLabel hw))
      (fun y hy => ?_) hw
    rw [isEmpty_inner_announced]
    exact hx y (mem_cons_of_mem x hy)

end DynScript

import DynScript.Scope.Table

/-!
# How a scope table moves on

Resolving names only ever adds to a scope table: the scopes around the current one stay as they are, the
current one gets further slots and labels behind those it has, and the numbers go up.
`ScopeTable.Onward t u` says that `u` has come out of `t` in this way.
-/

namespace DynScript

/-! ### Numbers handed out -/

/-- Distinct numbers from `lo` on and below `hi`. -/
def Fresh (lo hi : Nat) (ids : List Nat) : Prop :=
  ids.Nodup ∧ ∀ i ∈ ids, lo ≤ i ∧ i < hi

namespace Fresh

variable {lo mid hi : Nat} {a b : List Nat}

theorem nil : Fresh lo hi [] := by
  simp [Fresh]

theorem single (h : lo < hi) : Fresh lo hi [lo] := by
  simp [Fresh, h]

theorem append (ha : Fresh lo mid a) (hb : Fresh mid hi b) (hl : lo ≤ mid) (hh : mid ≤ hi) :
    Fresh lo hi (a ++ b) := by
  refine ⟨List.nodup_append.2 ⟨ha.1, hb.1, fun x hx y hy h => ?_⟩, fun i h => ?_⟩
  · have := (ha.2 x hx).2
    have := (hb.2 y hy).1
    omega
  · rcases List.mem_append.1 h with h | h
    · exact ⟨(ha.2 i h).1, Nat.lt_of_lt_of_le (ha.2 i h).2 hh⟩
    · exact ⟨Nat.le_trans hl (hb.2 i h).1, (hb.2 i h).2⟩

theorem perm (h : Fresh lo hi a) (p : a.Perm b) : Fresh lo hi b :=
  ⟨p.nodup h.1, fun i hi => h.2 i (p.mem_iff.2 hi)⟩

end Fresh

namespace ScopeTable

variable {t u w : ScopeTable}

/-! ### The current scope and those around it -/

/-- The scopes of a unit, the innermost one first. -/
def stack (t : ScopeTable) : List Scope :=
  t.inner ++ [t.globals]

/-- The scopes around the current one, as far as the unit goes. -/
def around (t : ScopeTable) : List Scope :=
  t.stack.tail

theorem stack_eq (t : ScopeTable) : t.stack = t.current :: t.around := by
  unfold stack around current stack
  cases t.inner <;> rfl

theorem chain_eq (t : ScopeTable) : t.chain = t.current :: (t.around ++ [t.linked]) := by
  rw [← List.cons_append, ← stack_eq]
  simp [chain, stack]

theorem depth_eq (t : ScopeTable) : t.depth = t.around.length := by
  simp [depth, around, stack]

@[simp] theorem current_enter (t : ScopeTable) (kind) :
    (t.enter kind).current = { kind := kind } := rfl

@[simp] theorem around_enter (t : ScopeTable) (kind) : (t.enter kind).around = t.stack := rfl

@[simp] theorem current_setCurrent (t : ScopeTable) (s) : (t.setCurrent s).current = s := by
  unfold setCurrent current
  split <;> simp_all

@[simp] theorem around_setCurrent (t : ScopeTable) (s) : (t.setCurrent s).around = t.around := by
  unfold setCurrent around stack
  split <;> simp_all

@[simp] theorem linked_setCurrent (t : ScopeTable) (s) : (t.setCurrent s).linked = t.linked := by
  unfold setCurrent; split <;> rfl

@[simp] theorem nextSlot_setCurrent (t : ScopeTable) (s) :
    (t.setCurrent s).nextSlot = t.nextSlot := by
  unfold setCurrent; split <;> rfl

@[simp] theorem nextLabel_setCurrent (t : ScopeTable) (s) :
    (t.setCurrent s).nextLabel = t.nextLabel := by
  unfold setCurrent; split <;> rfl

/-! ### Moving on -/

/-- The table `u` has come out of `t` by declarations in the current scope. -/
structure Onward (t u : ScopeTable) : Prop where
  linked : u.linked = t.linked
  around : u.around = t.around
  kind : u.current.kind = t.current.kind
  slots : ∃ new, u.current.slots = t.current.slots ++ new ∧
    Fresh t.nextSlot u.nextSlot (new.map (·.id))
  names : (t.current.slots.map (·.name)).Nodup → (u.current.slots.map (·.name)).Nodup
  labels : ∃ new, u.current.labels.map (·.label) = t.current.labels.map (·.label) ++ new ∧
    Fresh t.nextLabel u.nextLabel (new.map (·.id))
  label? : ∀ name e, t.current.label? name = some e →
    ∃ f, u.current.label? name = some f ∧ f.label = e.label ∧ (e.placed = true → f.placed = true)
  nextSlot : t.nextSlot ≤ u.nextSlot
  nextLabel : t.nextLabel ≤ u.nextLabel

namespace Onward

theorem refl (t) : Onward t t where
  linked := rfl
  around := rfl
  kind := rfl
  slots := ⟨[], by simp, Fresh.nil⟩
  names := id
  labels := ⟨[], by simp, Fresh.nil⟩
  label? _ e h := ⟨e, h, rfl, id⟩
  nextSlot := Nat.le_refl _
  nextLabel := Nat.le_refl _

theorem trans (h : Onward t u) (k : Onward u w) : Onward t w where
  linked := k.linked.trans h.linked
  around := k.around.trans h.around
  kind := k.kind.trans h.kind
  slots := by
    obtain ⟨a, ha, fa⟩ := h.slots
    obtain ⟨b, hb, fb⟩ := k.slots
    refine ⟨a ++ b, by rw [hb, ha, List.append_assoc], ?_⟩
    rw [List.map_append]
    exact fa.append fb h.nextSlot k.nextSlot
  names := k.names ∘ h.names
  labels := by
    obtain ⟨a, ha, fa⟩ := h.labels
    obtain ⟨b, hb, fb⟩ := k.labels
    refine ⟨a ++ b, by rw [hb, ha, List.append_assoc], ?_⟩
    rw [List.map_append]
    exact fa.append fb h.nextLabel k.nextLabel
  label? name e he := by
    obtain ⟨f, hf, hl, hp⟩ := h.label? name e he
    obtain ⟨g, hg, hl', hp'⟩ := k.label? name f hf
    exact ⟨g, hg, hl'.trans hl, fun x => hp' (hp x)⟩
  nextSlot := Nat.le_trans h.nextSlot k.nextSlot
  nextLabel := Nat.le_trans h.nextLabel k.nextLabel

end Onward

/-- Using up numbers and nothing else. -/
theorem onward_numbers (t : ScopeTable) {n l : Nat} (hn : t.nextSlot ≤ n) (hl : t.nextLabel ≤ l) :
    Onward t { t with nextSlot := n, nextLabel := l } where
  linked := rfl
  around := rfl
  kind := rfl
  slots := ⟨[], by simp [current], Fresh.nil⟩
  names := id
  labels := ⟨[], by simp [current], Fresh.nil⟩
  label? _ e h := ⟨e, h, rfl, id⟩
  nextSlot := hn
  nextLabel := hl

theorem onward_newSlot (t) (name location) (constant : Bool) :
    Onward t (t.newSlot name location constant).2 :=
  t.onward_numbers (Nat.le_succ _) (Nat.le_refl _)

/-- Using up numbers and putting a scope with more in it in place of the current one. -/
theorem onward_setCurrent (t : ScopeTable) {n l : Nat} {s : Scope} (slots labels)
    (hn : t.nextSlot ≤ n) (hl : t.nextLabel ≤ l) (hk : s.kind = t.current.kind)
    (hs : s.slots = t.current.slots ++ slots) (fs : Fresh t.nextSlot n (slots.map (·.id)))
    (hd : (t.current.slots.map (·.name)).Nodup → (s.slots.map (·.name)).Nodup)
    (hm : s.labels.map (·.label) = t.current.labels.map (·.label) ++ labels)
    (fl : Fresh t.nextLabel l (labels.map (·.id)))
    (h? : ∀ name e, t.current.label? name = some e →
      ∃ f, s.label? name = some f ∧ f.label = e.label ∧ (e.placed = true → f.placed = true)) :
    Onward t ({ t with nextSlot := n, nextLabel := l }.setCurrent s) where
  linked := by simp
  around := by simp; rfl
  kind := by simpa using hk
  slots := ⟨slots, by simpa using hs, by simpa using fs⟩
  names := by simpa using hd
  labels := ⟨labels, by simpa using hm, by simpa using fl⟩
  label? name e he := by simpa using h? name e he
  nextSlot := by simpa using hn
  nextLabel := by simpa using hl

/-! ### Declarations -/

theorem Scope.nodup_names_addSlot {s : Scope} {slot : Slot}
    (h : (s.slots.map (·.name)).Nodup) (hn : ∀ x ∈ s.slots, x.name ≠ slot.name) :
    ((s.addSlot slot).slots.map (·.name)).Nodup := by
  simp only [Scope.addSlot, List.map_append, List.map_cons, List.map_nil, List.nodup_append]
  refine ⟨h, by simp, fun name hm other ho => ?_⟩
  obtain ⟨x, hx, rfl⟩ := List.mem_map.1 hm
  obtain rfl := List.mem_singleton.1 ho
  exact hn x hx

theorem onward_define (t) (name location) (constant : Bool) :
    Onward t (t.define name location constant).2 := by
  unfold define newSlot
  simp only
  split
  · exact t.onward_numbers (Nat.le_succ _) (Nat.le_refl _)
  · rename_i unknown
    have unused : ∀ s ∈ t.current.slots, s.name ≠ name := by
      simpa [Scope.slot?, current] using unknown
    exact t.onward_setCurrent [⟨name, constant, location, t.nextSlot⟩] [] (Nat.le_succ _)
      (Nat.le_refl _) rfl rfl (Fresh.single (Nat.lt_succ_self _))
      (fun distinct => Scope.nodup_names_addSlot distinct unused)
      (by simp [current, Scope.addSlot]) Fresh.nil fun _ e h => ⟨e, h, rfl, id⟩

theorem label?_addLabel (s : Scope) (more) {name e} (h : s.label? name = some e) :
    (s.addLabel more).label? name = some e := by
  simp only [Scope.addLabel, Scope.label?] at h ⊢
  simp [List.find?_append, h]

theorem onward_defineLabel (t) (name kind location) (placed : Bool) :
    Onward t (t.defineLabel name kind location placed).2 := by
  unfold defineLabel
  simp only
  split
  · exact t.onward_numbers (Nat.le_refl _) (Nat.le_succ _)
  · exact t.onward_setCurrent [] [⟨name, kind, t.nextLabel⟩] (Nat.le_refl _) (Nat.le_succ _) rfl
      (by simp [current, Scope.addLabel]) Fresh.nil id
      (by simp [current, Scope.addLabel]) (Fresh.single (Nat.lt_succ_self _))
      fun _ e h => ⟨e, label?_addLabel _ _ h, rfl, id⟩

theorem onward_reserve (t) (kind) : Onward t (t.reserve kind).2 :=
  t.onward_defineLabel kind.word kind none true

theorem onward_announce (t) (name location) : Onward t (t.announce name location).2 :=
  t.onward_defineLabel name .user location false

/-- Changing the entries of a scope but not their labels. -/
theorem label?_map (s : Scope) (f : LabelEntry → LabelEntry) (hf : ∀ e, (f e).label = e.label)
    (name) : ({ s with labels := s.labels.map f } : Scope).label? name = (s.label? name).map f := by
  simp only [Scope.label?, List.find?_map]
  congr 2
  funext e
  simp [hf]

theorem onward_place (t : ScopeTable) (name location) : Onward t (t.place name location).2 := by
  unfold place
  split
  · exact t.onward_defineLabel name .user location true
  · rename_i entry _
    split
    · exact Onward.refl t
    · have hf : ∀ e : LabelEntry, (if e.label = entry.label then
          { entry with location := location, placed := true } else e).label = e.label := by
        intro e
        split <;> simp_all
      refine t.onward_setCurrent [] [] (Nat.le_refl _) (Nat.le_refl _) rfl (by simp) Fresh.nil id
        ?_ Fresh.nil fun n e h => ?_
      · simp only [List.map_map, List.append_nil]
        exact List.map_congr_left fun e _ => hf e
      · refine ⟨_, (label?_map _ _ hf n).trans (by rw [h]; rfl), hf e, fun hp => ?_⟩
        split <;> simp_all

/-! ### Tables over another one -/

/-- The table `u` has the scopes `above` over those of `t`, and all of them can be left. -/
structure Over (t u : ScopeTable) (above : List Scope) : Prop where
  inner : u.inner = above ++ t.inner
  globals : u.globals = t.globals
  linked : u.linked = t.linked
  kinds : ∀ s ∈ above, s.kind.isRoot = false
  entered : above ≠ []

section

variable {above base : List Scope} {kind : ScopeKind} {depth : Int}

theorem Over.depth_lt (h : t.Over u above) : t.depth < u.depth := by
  have := List.length_pos_iff.2 h.entered
  simp only [ScopeTable.depth, h.inner, List.length_append]
  omega

theorem over_enter (t : ScopeTable) (hk : kind.isRoot = false) :
    t.Over (t.enter kind) [{ kind := kind }] :=
  ⟨rfl, rfl, rfl, List.forall_mem_singleton.2 hk, List.cons_ne_nil _ _⟩

theorem Over.enter (h : t.Over u above) (hk : kind.isRoot = false) :
    t.Over (u.enter kind) ({ kind := kind } :: above) :=
  ⟨congrArg _ h.inner, h.globals, h.linked, List.forall_mem_cons.2 ⟨hk, h.kinds⟩, List.cons_ne_nil _ _⟩

/-- Declarations change the current scope only, which is one of those above. -/
theorem Over.onward (h : t.Over u above) (k : Onward u w) : ∃ above', t.Over w above' := by
  obtain ⟨s, rest, rfl⟩ := List.exists_cons_of_ne_nil h.entered
  have around := k.around
  have kind := k.kind
  have linked := k.linked.trans h.linked
  obtain ⟨_, globals, inner, _, _⟩ := w
  simp only [ScopeTable.around, stack, h.inner, List.cons_append, List.tail_cons] at around
  cases inner with
  | nil => simp at around
  | cons c inner =>
    obtain ⟨rfl, same⟩ := List.append_inj' around rfl
    have own : c.kind = s.kind := by simpa [current, h.inner] using kind
    obtain ⟨leaves, kinds⟩ := List.forall_mem_cons.1 h.kinds
    exact ⟨c :: rest, rfl, (List.singleton_inj.1 same).trans h.globals, linked,
      List.forall_mem_cons.2 ⟨own ▸ leaves, kinds⟩, List.cons_ne_nil _ _⟩

/-- Scopes that can be left do not stop going further down. -/
theorem unwound_append_of_le (hk : ∀ s ∈ above, s.kind.isRoot = false) (hd : depth ≤ base.length) :
    unwound depth (above ++ base) = unwound depth base := by
  induction above with
  | nil => rfl
  | cons s above ih =>
    obtain ⟨leaves, kinds⟩ := List.forall_mem_cons.1 hk
    have deep : depth < (above ++ base).length + 1 := by
      simp only [List.length_append]
      omega
    rw [List.cons_append, unwound, if_pos deep, leaves]
    exact ih kinds

theorem unwound_length (l : List Scope) : unwound l.length l = (l, none) := by
  cases l with
  | nil => rfl
  | cons s rest => simp [unwound]

/-- **Going down to the depth of `t` leads back to it**, but for the numbers handed out. -/
theorem Over.unwindTo_depth (h : t.Over u above) : u.unwindTo t.depth =
    ({ t with nextSlot := u.nextSlot, nextLabel := u.nextLabel }, none) := by
  have down := unwound_append_of_le h.kinds (Int.le_refl t.inner.length)
  rw [← h.inner, unwound_length] at down
  simp only [unwindTo, ScopeTable.depth, down, h.globals, h.linked]

/-- **A section leaves only numbers behind.**  A scope that is entered and, after any declarations
in it, left again leaves the table as it was, but for the numbers handed out. -/
theorem unwindTo_of_onward_enter (hk : kind.isRoot = false) (h : Onward (t.enter kind) u) :
    u.unwindTo t.depth = ({ t with nextSlot := u.nextSlot, nextLabel := u.nextLabel }, none) := by
  obtain ⟨above, lies⟩ := (t.over_enter hk).onward h
  exact lies.unwindTo_depth

end

/-- Leaving the scopes of a table down to its own depth leaves it as it is. -/
theorem unwindTo_depth (t : ScopeTable) : t.unwindTo t.depth = (t, none) := by
  simp only [unwindTo, depth, unwound_length]

end ScopeTable

end DynScript

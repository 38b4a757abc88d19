import DynScript.Scope.Onward
import DynScript.Scope.Section
import Mathlib.Tactic.Lemma

/-!
# Sections leave no trace

A section enters a scope of its own, carries out steps in it, which may enter and leave further scopes,
fail, or be sections themselves, and in the end leaves all scopes above those it began with.
-/

namespace DynScript

open List ScopeStep

/-- An action that enters no scope of the kinds that are never left. -/
def ScopeAction.isPlain : ScopeAction → Bool
  | .enter kind => !kind.isRoot
  | _ => true

mutual

/-- A step enters only scopes that can be left, and more than `n` scopes are left after each action. -/
def ScopeStep.staysAbove (n : Nat) (s : SectionState) : ScopeStep → Bool
  | .act a => a.isPlain && n < (s.table.act a).2.depth
  | .nest kind body => !kind.isRoot && stayAbove n (s.start kind) body

/-- Steps that are carried out until one fails do. -/
def ScopeStep.stayAbove (n : Nat) (s : SectionState) : List ScopeStep → Bool
  | [] => true
  | step :: rest => step.staysAbove n s &&
    match step.perform s with
    | (.error _, _) => true
    | (.ok _, s) => stayAbove n s rest

end

/-! ### Going down over a table -/

namespace ScopeTable

/-- The second table resolves all names and labels as the first one does. -/
structure Resolves (t u : ScopeTable) : Prop where
  current : u.current = t.current
  lookup : ∀ name, u.lookup name = t.lookup name
  lookupLabel : ∀ name, u.lookupLabel name = t.lookupLabel name

variable {t u : ScopeTable} {above base : List Scope} {depth : Int}

lemma Resolves.of_numbers (t : ScopeTable) (nextSlot nextLabel : Nat) :
    t.Resolves { t with nextSlot := nextSlot, nextLabel := nextLabel } :=
  ⟨rfl, fun _ => rfl, fun _ => rfl⟩

lemma exists_unwound_append (hk : ∀ s ∈ above, s.kind.isRoot = false) (he : above ≠ [])
    (hd : base.length < depth) : ∃ kept, kept ≠ [] ∧ (∀ s ∈ kept, s.kind.isRoot = false) ∧
      unwound depth (above ++ base) = (kept ++ base, none) := by
  induction above with
  | nil => exact absurd rfl he
  | cons s above ih =>
    rw [cons_append, unwound]
    split
    · rename_i deep
      obtain ⟨leaves, kinds⟩ := forall_mem_cons.1 hk
      have more : above ≠ [] := by
        rintro rfl
        simp only [nil_append] at deep
        omega
      rw [leaves]
      exact ih kinds more
    · exact ⟨s :: above, cons_ne_nil _ _, hk, rfl⟩

lemma length_unwound_le (depth : Int) (l) : (unwound depth l).1.length ≤ l.length := by
  induction l with
  | nil => exact Nat.le_refl _
  | cons s l ih =>
    unfold unwound
    split
    · split
      · exact Nat.le_refl _
      · exact Nat.le_succ_of_le ih
    · exact Nat.le_refl _

lemma Over.unwindTo (h : t.Over u above) (hd : t.depth < depth) :
    (u.unwindTo depth).2 = none ∧ ∃ kept, t.Over (u.unwindTo depth).1 kept := by
  obtain ⟨kept, some, kinds, same⟩ := exists_unwound_append h.kinds h.entered hd
  simp only [ScopeTable.unwindTo, h.inner, same]
  exact ⟨trivial, kept, rfl, h.globals, h.linked, kinds, some⟩

lemma Over.act (h : t.Over u above) {a : ScopeAction} (ha : a.isPlain)
    (stays : t.depth < (u.act a).2.depth) : ∃ above', t.Over (u.act a).2 above' := by
  cases a with
  | enter kind => exact ⟨_, h.enter (by simpa [ScopeAction.isPlain] using ha)⟩
  | leave =>
    obtain ⟨s, rest, rfl⟩ := exists_cons_of_ne_nil h.entered
    obtain ⟨leaves, kinds⟩ := forall_mem_cons.1 h.kinds
    simp only [ScopeTable.act, leave, h.inner, cons_append, leaves, Bool.false_eq_true,
      if_false] at stays ⊢
    refine ⟨rest, rfl, h.globals, h.linked, kinds, ?_⟩
    rintro rfl
    exact Nat.lt_irrefl _ stays
  | unwind depth =>
    have result : (u.act (.unwind depth)).2 = (u.unwindTo depth).1 := by
      simp only [ScopeTable.act]
      split <;> simp_all
    rw [result] at stays ⊢
    by_cases higher : t.depth < depth
    · exact (h.unwindTo higher).2
    · -- As few scopes are left as there were before.
      simp only [ScopeTable.unwindTo, ScopeTable.depth, h.inner,
        unwound_append_of_le h.kinds (Int.not_lt.1 higher)] at stays
      exact absurd stays (Nat.not_lt.2 (length_unwound_le _ _))
  | define name location constant => exact h.onward (u.onward_define name location constant)
  | reserve kind => exact h.onward (u.onward_reserve kind)
  | announce name location => exact h.onward (u.onward_announce name location)
  | place name location => exact h.onward (u.onward_place name location)
  | lookup | similar | names | exported | lookupLabel => exact ⟨above, h⟩
  | reset linked => exact absurd stays (Nat.not_lt_zero _)

end ScopeTable

/-! ### Steps -/

/-- What a section over the table `t` comes to, with `n` sections under way. -/
structure SectionState.Over (t : ScopeTable) (n : Nat) (s : SectionState) : Prop where
  table : ∃ above, t.Over s.table above
  sections : s.sections.length = n

section

variable {t : ScopeTable} {s u : SectionState} {n : Nat} {kind : ScopeKind} {body : List ScopeStep}

lemma SectionState.finish_eq (h : u.sections.length = n + 1) (depth : Nat) :
    ∃ scope sections, sections.length = n ∧ u.finish depth =
      (scope, (u.table.unwindTo depth).2, ⟨(u.table.unwindTo depth).1, sections⟩) := by
  obtain ⟨table, sections⟩ := u
  cases sections with
  | nil => cases h
  | cons own rest => exact ⟨own.scope, rest, Nat.succ.inj h, rfl⟩

mutual

lemma ScopeStep.over_perform : ∀ {x : ScopeStep} {n : Nat} {s : SectionState}, s.Over t n →
    x.staysAbove t.depth s → (x.perform s).2.Over t n
  | .act _, _, _, ⟨⟨_, h⟩, count⟩, stays => by
    obtain ⟨plain, depth⟩ := (Bool.and_eq_true ..).mp stays
    exact ⟨h.act plain (by simpa using depth), by simpa [perform, SectionState.withTable] using count⟩
  | .nest kind body, n, s, ⟨⟨_, h⟩, count⟩, stays => by
    obtain ⟨leaves, stay⟩ := (Bool.and_eq_true ..).mp stays
    have begun : (s.start kind).Over t (n + 1) :=
      ⟨⟨_, h.enter (by simpa using leaves)⟩, congrArg (· + 1) count⟩
    obtain ⟨⟨_, inside⟩, opened⟩ := over_performAll begun stay
    -- The inner section does not go down further than to where it began.
    have ends := inside.unwindTo (Int.ofNat_lt.2 h.depth_lt)
    obtain ⟨scope, sections, rest, finish⟩ := SectionState.finish_eq opened s.table.depth
    simp only [perform, finish, ends.1]
    exact ⟨ends.2, rest⟩

lemma ScopeStep.over_performAll : ∀ {l : List ScopeStep} {n : Nat} {s : SectionState}, s.Over t n →
    stayAbove t.depth s l → (performAll s l).2.Over t n
  | [], _, _, h, _ => h
  | x :: l, n, s, h, stays => by
    obtain ⟨first, rest⟩ := (Bool.and_eq_true ..).mp stays
    have lies := over_perform h first
    unfold performAll
    split
    · rename_i fails
      rwa [fails] at lies
    · rename_i succeeds
      rw [succeeds] at lies rest
      exact over_performAll lies rest

end

namespace SectionState

/-- Carrying out steps one after the other, above `n` scopes, and going on behind those that fail. -/
inductive Reaches (n : Nat) : SectionState → SectionState → Prop where
  | refl (s : SectionState) : Reaches n s s
  | step {s u : SectionState} {x : ScopeStep} (stays : x.staysAbove n s)
    (h : Reaches n (x.perform s).2 u) : Reaches n s u

lemma Over.reaches (h : s.Over t n) (r : Reaches t.depth s u) : u.Over t n := by
  induction r with
  | refl => exact h
  | step stays _ ih => exact ih (over_perform h stays)

/-- **A section leaves no trace** in the table.  Whatever steps it carries out in its scope, going on
behind those that fail or ending with the first one, and however many scopes it has entered then: if its
own scope has not been left before, leaving these scopes meets with no refusal, and the current scope is
the one before.  Every name and label is resolved as before, and labels are pending or placed as they
were. -/
theorem section_leaves_no_trace (s : SectionState) (hk : kind.isRoot = false) :
    (∀ u, Reaches s.table.depth (s.start kind) u → (u.finish s.table.depth).2.1 = none ∧
      s.table.Resolves (u.finish s.table.depth).2.2.table) ∧
    ∀ body, stayAbove s.table.depth (s.start kind) body →
      (∃ scope, ((nest kind body).perform s).1 =
        (performAll (s.start kind) body).1.map (.nested scope)) ∧
      s.table.Resolves ((nest kind body).perform s).2.table := by
  have begun : (s.start kind).Over s.table (s.sections.length + 1) := ⟨⟨_, s.table.over_enter hk⟩, rfl⟩
  refine ⟨fun u reach => ?_, fun body stay => ?_⟩
  · obtain ⟨⟨_, lies⟩, count⟩ := begun.reaches reach
    obtain ⟨scope, sections, -, finish⟩ := finish_eq count s.table.depth
    rw [finish, lies.unwindTo_depth]
    exact ⟨rfl, .of_numbers _ _ _⟩
  · obtain ⟨⟨_, lies⟩, count⟩ := over_performAll begun stay
    obtain ⟨scope, sections, -, finish⟩ := finish_eq count s.table.depth
    simp only [perform, finish, lies.unwindTo_depth]
    exact ⟨⟨scope, rfl⟩, .of_numbers _ _ _⟩

/-- A section that declares a variable and a label, enters a loop and fails there. -/
theorem section_leaves_no_trace_failed :
    let s : SectionState := { table := {} }
    let body : List ScopeStep := [.act (.define "a" none false), .act (.announce "l" none),
      .act (.enter .loop), .act (.define "b" none false), .act (.define "b" none true)]
    (performAll (s.start .block) body).1.toOption.isNone ∧
    s.table.Resolves ((nest .block body).perform s).2.table := by
  intro s body
  exact ⟨rfl, ((section_leaves_no_trace s rfl).2 body rfl).2⟩

/-- A scope of a kind that is never left is not left at the end of a section either. -/
theorem section_stopped_by_root :
    let s : SectionState := { table := {} }
    s.table.depth < (performAll (s.start .block) [.act (.enter .global)]).2.table.depth ∧
    ((nest .block [.act (.enter .global)]).perform s).1 = .error (.cannotLeave .global) ∧
    ((nest .block [.act (.enter .global)]).perform s).2.table.depth = 2 :=
  ⟨by decide, rfl, rfl⟩

end SectionState

end

end DynScript

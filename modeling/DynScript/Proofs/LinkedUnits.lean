import DynScript.Proofs.RunningPassages

/-!
# Linked units

A text, another one that is linked to it, and the two of them joined by a line feed, all without errors,
are parsed side by side.  The code of each of the two is a passage of the joint code.
-/

namespace DynScript

open Parse List

/-! ### Texts without errors -/

/-- A unit of the statements `l`, when `done` is the state behind them. -/
structure CompiledUnit.Reads (u : CompiledUnit) (l : List Stmt) (done : ParseState) : Prop where
  statements : u.program.body.statements = l
  slots : u.program.body.slots = done.scopes.globals.slots
  exported : u.exported = done.scopes.globals.slots

namespace CleanParse

variable {options : CompileOptions} {natives : Registry} {linked : List Slot} {s : Supply}

/-- **A text that compiles without errors is read to the end without errors.** -/
theorem of_compile {source} {u} (h : (compile source options natives linked s).result = .ok u)
    (ok : u.ok) :
    (scan source options.file).errors = [] ∧ ∃ tokens eof l done,
      (scan source options.file).tokens = tokens ++ [eof] ∧
      CleanParse options natives tokens eof linked s l done ∧ u.Reads l done ∧
      (compile source options natives linked s).supply =
        ⟨done.scopes.nextSlot, done.scopes.nextLabel⟩ := by
  obtain ⟨tokens, eof, he, kind⟩ := Scan.exists_tokens options.file (lexemes source.toList) {}
  have scanned : (scan source options.file).tokens = tokens ++ [eof] := he
  unfold compile at h ⊢
  dsimp only at h ⊢
  rw [scanned, parse_eq, run_parseUnit] at h ⊢
  cases hr : ((Grammar.unrolled (tokens.length + 1)).unit (tokens.length + 1)).run
      (.ofUnit tokens eof options natives) (.announced tokens eof linked s) with
  | error e t =>
    rw [hr] at h
    cases h
  | ok l t =>
    rw [hr] at h
    cases h
    obtain ⟨clean, sane⟩ : t.errors = [] ∧ (scan source options.file).errors = [] := by
      simpa [CompiledUnit.ok] using ok
    exact ⟨sane, tokens, eof, l, t, rfl, ⟨kind, hr, clean⟩, ⟨rfl, rfl, rfl⟩, rfl⟩

lemma fresh_slots {tokens eof l} {u} (h : CleanParse options natives tokens eof linked s l u) :
    Fresh s.slot u.scopes.nextSlot (u.scopes.globals.slots.map (·.id)) := by
  obtain ⟨new, slots, fresh⟩ := h.onward.slots
  have current : u.scopes.current = u.scopes.globals := by simp [ScopeTable.current, h.inner]
  rw [current] at slots
  rw [slots]
  exact fresh

end CleanParse

namespace JointParse

/-- The units that are read, and the numbers to go on from. -/
structure Yields (J : JointParse) (u v j : CompiledUnit) (s s' : Supply) : Prop where
  first : u.Reads J.code₁ J.done₁
  second : v.Reads J.code₂ J.done₂
  both : j.Reads J.code J.done
  supply : s = ⟨J.done₂.scopes.nextSlot, J.done₂.scopes.nextLabel⟩
  supply' : s' = ⟨J.done.scopes.nextSlot, J.done.scopes.nextLabel⟩

/-- **Linked texts and the joint text are parsed side by side.** -/
theorem exists_of_compile {options} {natives : Registry} {bound : Value → Prop}
    (allowed : ∀ name f, natives.lookup name = some f → ∀ v ∈ f.bound, bound v) {a b s s'} {u v j}
    (hu : (compile a options natives [] s).result = .ok u) (ou : u.ok)
    (hv : (compile b options natives u.exported (compile a options natives [] s).supply).result = .ok v)
    (ov : v.ok) (hj : (compile (lineJoined a b) options natives [] s').result = .ok j) (oj : j.ok) :
    ∃ J : JointParse, J.bound = bound ∧ J.lines = lineCount a ∧ J.Yields u v j
      (compile b options natives u.exported (compile a options natives [] s).supply).supply
      (compile (lineJoined a b) options natives [] s').supply := by
  obtain ⟨sane, tokens₁, eof₁, l₁, done₁, scan₁, parse₁, first, supply₁⟩ := CleanParse.of_compile hu ou
  rw [first.exported, supply₁] at hv ⊢
  obtain ⟨-, tokens₂, eof₂, l₂, done₂, scan₂, parse₂, second, supply₂⟩ := CleanParse.of_compile hv ov
  obtain ⟨-, tokens, eof, l, done, scanned, joint, both, supply⟩ := CleanParse.of_compile hj oj
  -- The joint text has the tokens of both, without the end of the first.
  have closed : ∀ e ∈ (scan a options.file).errors, e.fault.unterminated = false := by
    rw [sane]
    exact forall_mem_nil _
  rw [tokens_joined closed, scan₁, scan₂, dropLast_concat, map_append, ← append_assoc]
    at scanned
  obtain ⟨rfl, last⟩ := append_inj' scanned rfl
  obtain rfl : eof₂.down (lineCount a) = eof := by simpa using last
  exact ⟨⟨options, natives, bound, allowed, tokens₁, tokens₂, eof₁, eof₂, lineCount a, s, s', l₁, l₂, l,
    done₁, done₂, done, parse₁, parse₂, joint⟩, rfl, rfl, first, second, both, supply₂, supply⟩

/-! ### Numbers -/

variable (J : JointParse)

/-- What belongs to the second unit: it is set apart while the first one is run. -/
def reserve : Reserve where
  slots i := J.done₁.scopes.nextSlot ≤ i ∧ i < J.done₂.scopes.nextSlot
  slots' i := J.seam.slot ≤ i ∧ i < J.done.scopes.nextSlot
  labels i := J.done₁.scopes.nextLabel ≤ i ∧ i < J.done₂.scopes.nextLabel
  labels' i := J.middle.nextLabel ≤ i ∧ i < J.start.scopes.nextLabel ∨
    J.seam.label ≤ i ∧ i < J.done.scopes.nextLabel

/-- Places are the same, or further down in the joint text. -/
def places (p q : Location) : Prop :=
  q = p ∨ q = p.down J.lines

/-- The numbers that the parses have come to on their way. -/
structure Order : Prop where
  slot : J.supply.slot ≤ J.done₁.scopes.nextSlot
  slot₂ : J.done₁.scopes.nextSlot ≤ J.done₂.scopes.nextSlot
  seam_slot : J.seam.slot + J.supply.slot = J.supply'.slot + J.done₁.scopes.nextSlot
  done_slot : J.done.scopes.nextSlot + J.done₁.scopes.nextSlot =
    J.done₂.scopes.nextSlot + J.seam.slot
  label : J.supply.label ≤ J.start₁.scopes.nextLabel
  label₁ : J.start₁.scopes.nextLabel ≤ J.done₁.scopes.nextLabel
  label₂ : J.done₁.scopes.nextLabel ≤ J.start₂.scopes.nextLabel
  label₃ : J.start₂.scopes.nextLabel ≤ J.done₂.scopes.nextLabel
  middle_label : J.middle.nextLabel + J.supply.label = J.supply'.label + J.start₁.scopes.nextLabel
  start_label : J.start.scopes.nextLabel + J.done₁.scopes.nextLabel =
    J.start₂.scopes.nextLabel + J.middle.nextLabel
  seam_label : J.seam.label + J.start₁.scopes.nextLabel =
    J.start.scopes.nextLabel + J.done₁.scopes.nextLabel
  done_label : J.done.scopes.nextLabel + J.start₂.scopes.nextLabel =
    J.done₂.scopes.nextLabel + J.seam.label

variable {J} {k₁ k₂ : List Stmt} {x₁ x₂ : List Slot}

lemma Split.order (h : J.Split k₁ k₂ x₁ x₂) : J.Order := by
  have slot : J.supply.slot ≤ J.done₁.scopes.nextSlot := J.parse₁.onward.nextSlot
  have label₁ : J.start₁.scopes.nextLabel ≤ J.done₁.scopes.nextLabel :=
    J.parse₁.declares.1.onward.scopes.nextLabel
  have middle : J.start₁.scopes.nextLabel + J.supply'.label = J.middle.nextLabel + J.supply.label :=
    J.like_middle.labelsInStep
  refine ⟨slot, J.parse₂.onward.nextSlot, ?_, h.nextSlot, ?_, label₁, ?_, ?_, by omega,
    h.nextLabel_start, ?_, h.nextLabel⟩
  · dsimp only [seam]
    omega
  · exact (onward_announced (labelsAhead 0 J.tokens₁)
      (ParseState.start J.tokens₁ J.eof₁ [] J.supply).scopes).nextLabel
  · exact (onward_announced (labelsAhead 0 J.tokens₂)
      (ParseState.start J.tokens₂ J.eof₂ J.done₁.scopes.globals.slots J.supply₂).scopes).nextLabel
  · exact J.parse₂.declares.1.onward.scopes.nextLabel
  · dsimp only [seam]
    omega

/-- **The numbers of the first unit are related one to one,** those of the second one being set
apart. -/
theorem Split.tied₁ (h : J.Split k₁ k₂ x₁ x₂) :
    J.reserve.Tied J.places J.like₁ ⟨J.done₂.scopes.nextSlot, J.done₂.scopes.nextLabel⟩
      ⟨J.done.scopes.nextSlot, J.done.scopes.nextLabel⟩ := by
  obtain ⟨slot, slot₂, seam_slot, done_slot, label, label₁, label₂, label₃, middle_label, start_label,
    seam_label, done_label⟩ := h.order
  -- Each number lies in one of the intervals that the parses have gone through.
  refine ⟨rfl, ⟨?_, ?_, ?_, ?_, ?_⟩, ⟨?_, ?_, ?_, ?_, ?_⟩⟩
  all_goals dsimp only [like₁, Moves, reserve]
  all_goals intros
  all_goals omega

variable (J) in
/-- The numbers of the second unit are related too. -/
def extended (w : Likeness) : Likeness :=
  { w with
    slots := fun i i' => w.slots i i' ∨ J.like₂.slots i i'
    labels := fun i i' => w.labels i i' ∨ J.like₂.labels i i' }

/-- **The numbers of both units are related one to one,** once the first unit has been run. -/
theorem Split.tied₂ (h : J.Split k₁ k₂ x₁ x₂) {w s s'} (le : J.like₁.Le w)
    (ht : J.reserve.Tied J.places w s s') : Reserve.none.Tied J.places (J.extended w) s s' := by
  obtain ⟨slot, slot₂, seam_slot, done_slot, label, label₁, label₂, label₃, middle_label, start_label,
    seam_label, done_label⟩ := h.order
  refine ⟨ht.places_eq, ht.slots.release ?_ fun {i i'} hi => ?_, ht.labels.release ?_ fun hi => .inr ?_⟩
  · dsimp only [like₂, Moves]
    intros
    omega
  · -- The second unit knows the names of the first one by the same numbers.
    by_cases first : i < J.done₁.scopes.nextSlot
    · exact .inl (le.slots i i' ⟨hi.1, first, hi.2.2⟩)
    · refine .inr ?_
      dsimp only [like₂, Moves, reserve] at hi ⊢
      omega
  · dsimp only [like₂, Moves]
    intros
    omega
  · dsimp only [like₂, Moves, reserve] at hi ⊢
    omega

/-! ### Global variables -/

lemma apart_slots (J : JointParse) : ∀ x ∈ J.done₂.scopes.globals.slots, J.reserve.slots x.id :=
  fun x hx => J.parse₂.fresh_slots.2 x.id (mem_map_of_mem hx)

lemma Split.apart_slots' (h : J.Split k₁ k₂ x₁ x₂) : ∀ x ∈ x₂, J.reserve.slots' x.id := by
  obtain ⟨slot, slot₂, seam_slot, done_slot, -⟩ := h.order
  intro x' hx
  obtain ⟨x, hx, like⟩ := exists_left_of_forall₂ h.slots₂ hx
  have apart := J.apart_slots x hx
  have moved := like.id
  dsimp only [like₂, Moves, reserve] at apart moved ⊢
  omega

/-- **The first unit is a passage of the joint one.** -/
def passage₁ (h : J.Split k₁ k₂ x₁ x₂) {u j : CompiledUnit} (hu : u.Reads J.code₁ J.done₁)
    (hj : j.Reads J.code J.done) : Passage where
  places := J.places
  places_refl _ := .inl rfl
  reserve := J.reserve
  spare r := if r = 0 then x₂.map fun x => (x.id, .null) else []
  spare_apart r c hc := by
    split at hc
    · obtain ⟨x, hx, rfl⟩ := mem_map.1 hc
      exact h.apart_slots' x hx
    · cases hc
  i := 0
  frame := 0
  caller := 0
  base := J.like₁
  unit := u.program.body
  joint := j.program.body
  before := []
  own := k₁
  after := k₂
  joint_eq := by rw [hj.statements, h.code, nil_append]
  like := by
    rw [hu.statements]
    exact h.code₁
  clear := by
    -- Nothing stands before the first unit.
    rintro w - - t t' - - ⟨_, _, hl, -⟩
    cases hl

lemma exists_labelAmong {w} {l l'} (h : Forall₂ (Stmt.Like w) l l') :
    (∀ {id}, Stmt.LabelAmong l id → ∃ id', w.labels id id') ∧
      ∀ {id'}, Stmt.LabelAmong l' id' → ∃ id, w.labels id id' := by
  constructor
  · rintro id ⟨t, p, ht, rfl⟩
    obtain ⟨s', hs⟩ := exists_of_forall₂ h ht
    cases hs with
    | label hl _ => exact ⟨_, hl.id⟩
  · rintro id' ⟨t', p', ht, rfl⟩
    obtain ⟨s, -, hs⟩ := exists_left_of_forall₂ h ht
    cases hs with
    | label hl _ => exact ⟨_, hl.id⟩

lemma Split.apart_labels (h : J.Split k₁ k₂ x₁ x₂) {i₁ i₂ i : Nat} (h₁ : J.like₁.labels i₁ i)
    (h₂ : J.like₂.labels i₂ i) : False := by
  obtain ⟨-, -, -, -, label, label₁, label₂, label₃, middle_label, start_label, seam_label,
    done_label⟩ := h.order
  dsimp only [like₁, like₂, Moves] at h₁ h₂
  omega

/-- **The second unit is a passage of the joint one.** -/
def passage₂ (h : J.Split k₁ k₂ x₁ x₂) {v j : CompiledUnit} (hv : v.Reads J.code₂ J.done₂)
    (hj : j.Reads J.code J.done) : Passage where
  places := J.places
  places_refl _ := .inl rfl
  reserve := .none
  spare _ := []
  spare_apart _ := forall_mem_nil _
  i := 0
  frame := 0
  caller := 0
  base := J.like₂
  unit := v.program.body
  joint := j.program.body
  before := k₁
  own := k₂
  after := []
  joint_eq := by rw [hj.statements, h.code, append_nil]
  like := by
    rw [hv.statements]
    exact h.code₂
  clear := by
    intro w le exact t t' ht among known
    rw [hv.statements] at among
    obtain ⟨i, hi⟩ := (exists_labelAmong h.code₂).1 among
    obtain ⟨i₁, h₁⟩ := (exists_labelAmong h.code₁).2 known
    -- The label that the jump leads to is that of the second unit.
    have same : i = t'.id := (exact.labels (le.labels _ _ hi) ht.id).1 rfl
    exact h.apart_labels h₁ (same ▸ hi)

end JointParse

end DynScript

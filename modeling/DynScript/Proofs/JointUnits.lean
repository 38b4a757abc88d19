import DynScript.Proofs.JoinedTexts
import DynScript.Proofs.UnitParts

/-!
# Joint units

A unit that is linked to another one is read as it would be read behind that one: the same names lead to
like slots and labels.
-/

namespace DynScript

open Parse List ParseState

/-! ### Units without errors -/

/-- The names of the labels found in a unit. -/
def labelNames (tokens : List Token) : List String :=
  (labelsAhead 0 tokens).map (·.lexeme)

/-- The tokens of a unit are read without errors as the statements `l`, and `u` is the state then. -/
structure CleanParse (options : CompileOptions) (natives : Registry) (tokens : List Token)
    (eof : Token) (linked : List Slot) (s : Supply) (l : List Stmt) (u : ParseState) : Prop where
  eof_kind : eof.kind = .endOfInput
  run : ((Grammar.unrolled (tokens.length + 1)).unit (tokens.length + 1)).run
    (.ofUnit tokens eof options natives) (.announced tokens eof linked s) = .ok l u
  clean : u.errors = []

namespace CleanParse

variable {options : CompileOptions} {natives : Registry} {tokens : List Token} {eof : Token}
  {linked : List Slot} {s : Supply} {l : List Stmt} {u : ParseState}

lemma declares (h : CleanParse options natives tokens eof linked s l u) :
    Declares (.announced tokens eof linked s) l u ∧ u.rest = [] :=
  Grammar.declares_unit (Grammar.sound_unrolled h.eof_kind _) _ _ _ _ h.run

lemma inner_announced (tokens eof linked s) :
    (announced tokens eof linked s).scopes.inner = [] := by
  rcases Overlay.Within.globals_of_onward
    (onward_announced (labelsAhead 0 tokens) (start tokens eof linked s).scopes) with
    ⟨-, h⟩ | ⟨h, -⟩
  · exact h
  · exact absurd rfl h

lemma inner (h : CleanParse options natives tokens eof linked s l u) : u.scopes.inner = [] := by
  rcases Overlay.Within.globals_of_onward h.declares.1.onward.scopes with ⟨-, hu⟩ | ⟨hs, -⟩
  · exact hu
  · exact absurd (inner_announced tokens eof linked s) hs

lemma awaits :
    Parse.Awaits (labelNames tokens) (announced tokens eof linked s).scopes.current :=
  (reads_of_announceLabels (c := .ofUnit tokens eof default default)
    (s := .start tokens eof linked s) rfl rfl).2.2

section

variable (h : CleanParse options natives tokens eof linked s l u)
include h

lemma labelNames_append (r) :
    labelNames (tokens ++ r) = (Stmt.targets l).map (·.name) ++ labelNames r := by
  obtain ⟨declares, ended⟩ := h.declares
  obtain ⟨seg, hs, hn⟩ := declares.ahead h.clean
  rw [ended, append_nil] at hs
  obtain rfl : tokens = seg := hs
  exact hn r

lemma labelNames_eq : labelNames tokens = (Stmt.targets l).map (·.name) := by
  have none : labelNames [] = [] := rfl
  simpa [none] using h.labelNames_append []

lemma mem_labelNames {name e} (he : u.scopes.globals.label? name = some e) :
    name ∈ labelNames tokens := by
  have current : u.scopes.current = u.scopes.globals := by simp [ScopeTable.current, h.inner]
  obtain ⟨placed, unplaced⟩ := h.declares.1.places h.clean name e (current ▸ he)
  cases hp : e.placed with
  | true =>
    rcases placed hp with declared | ⟨f, hf, -⟩
    · rw [h.labelNames_eq, ← Scope.name_of_label? he]
      exact mem_map_of_mem declared
    · exact (awaits name f hf).2
  | false => exact (awaits name e (unplaced hp).1).2

omit h in
lemma onward (h : CleanParse options natives tokens eof linked s l u) :
    (start tokens eof linked s).scopes.Onward u.scopes :=
  (onward_announced _ _).trans h.declares.1.onward.scopes

lemma nodup_names : (u.scopes.globals.slots.map (·.name)).Nodup := by
  have current : u.scopes.current = u.scopes.globals := by simp [ScopeTable.current, h.inner]
  rw [← current]
  exact h.onward.names nodup_nil

end

variable (tokens eof linked s) in
lemma slots_announced :
    (announced tokens eof linked s).scopes.globals.slots = [] ∧
      (announced tokens eof linked s).scopes.nextSlot = s.slot := by
  obtain ⟨-, slots, next⟩ := announced_names (L := labelNames tokens)
    (t := (start tokens eof linked s).scopes) (labelsAhead 0 tokens)
    (fun x hx => mem_map_of_mem hx) (fun name e he => by cases he)
  have current : (announced tokens eof linked s).scopes.current =
      (announced tokens eof linked s).scopes.globals := by
    simp [ScopeTable.current, inner_announced]
  rw [← current]
  exact ⟨slots, next⟩

end CleanParse

/-! ### Linked names -/

lemma Scope.slots_foldl_link_of_nodup {slots} {s : Scope}
    (h : ((s.slots ++ slots).map (·.name)).Nodup) :
    (slots.foldl Scope.link s).slots = s.slots ++ slots := by
  induction slots generalizing s with
  | nil => simp
  | cons x slots ih =>
    have new : s.slot? x.name = none := by
      rw [Scope.slot?, find?_eq_none]
      intro y hy
      rw [map_append, nodup_append] at h
      simpa using h.2.2 y.name (mem_map_of_mem hy) x.name (by simp)
    have link : s.link x = { s with slots := s.slots ++ [x] } := by
      simp [Scope.link, new, Scope.addSlot]
    rw [foldl_cons, link, ih] <;> simp_all

lemma labelsAhead_down (n d : Nat) (l : List Token) :
    labelsAhead d (l.map (Token.down n)) = (labelsAhead d l).map (Token.down n) := by
  induction l generalizing d with
  | nil => rfl
  | cons t l ih =>
    have kind : (t.down n).kind = t.kind := rfl
    simp only [map_cons, labelsAhead, kind, ih]
    split
    · rfl
    · split <;> rfl
    · split
      · cases l with
        | nil => rfl
        | cons x l =>
          have kind : (x.down n).kind = x.kind := rfl
          simp only [map_cons, head?_cons, Option.filter_some, kind]
          split <;> rfl
      · rfl
    · rfl

lemma labelNames_down (n : Nat) (l : List Token) :
    labelNames (l.map (Token.down n)) = labelNames l := by
  rw [labelNames, labelsAhead_down, map_map]
  rfl

end DynScript

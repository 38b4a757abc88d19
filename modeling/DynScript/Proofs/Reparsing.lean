import DynScript.Proofs.Recoding
import DynScript.Proofs.Renumbering

/-!
# Parses that do not leak into each other

Parsing depends on what was parsed before in one way only: the numbers of slots and labels go on from
where they are.  Parse the tokens from the numbers one on, with linked slots that have no number.
-/

namespace DynScript

open Parse List

/-! ### Linked slots -/

/-- A slot without its number. -/
def Slot.unnumbered (x : Slot) : Slot :=
  { x with id := 0 }

/-- The scope of the linked slots. -/
def linkedScope (linked : List Slot) : Scope :=
  linked.foldl Scope.link { kind := .linked }

/-- Slots and labels are moved up, and linked slots get the numbers they came with. -/
def Recoding.shift (linked : List Slot) (slots labels : Nat) : Recoding where
  linked name := (((linkedScope linked).slot? name).map (·.id)).getD 0
  slots := slots
  labels := labels
  natives := id

namespace Scope

/-- The slots of a scope are told apart by their names. -/
def Distinct (s : Scope) : Prop :=
  ∀ x ∈ s.slots, ∀ y ∈ s.slots, x.name = y.name → x = y

lemma Distinct.link {s : Scope} (h : s.Distinct) (slot) : (s.link slot).Distinct := by
  unfold Scope.link
  split
  · -- The new slot stands wherever its name did, and no name has changed.
    have named (v : Slot) : (if v.name = slot.name then slot else v).name = v.name := by
      split
      · rename_i hv
        exact hv.symm
      · rfl
    intro x hx y hy hxy
    obtain ⟨v, hv, rfl⟩ := mem_map.1 hx
    obtain ⟨u, hu, rfl⟩ := mem_map.1 hy
    rw [named, named] at hxy
    rw [h v hv u hu hxy]
  · rename_i unknown
    have absent : ∀ v ∈ s.slots, v.name ≠ slot.name := by
      intro v hv hn
      refine unknown (find?_isSome.2 ⟨v, hv, ?_⟩)
      simpa using hn
    intro x hx y hy hxy
    simp only [addSlot, mem_append, mem_singleton] at hx hy
    rcases hx with hx | rfl <;> rcases hy with hy | rfl
    · exact h x hx y hy hxy
    · exact absurd hxy (absent x hx)
    · exact absurd hxy.symm (absent y hy)
    · rfl

lemma Distinct.slot? {s : Scope} (h : s.Distinct) {x} (hx : x ∈ s.slots) :
    s.slot? x.name = some x := by
  cases hf : s.slot? x.name with
  | none =>
    have := find?_eq_none.1 hf x hx
    simp at this
  | some y =>
    have name : y.name = x.name := by simpa using find?_some hf
    rw [h y (mem_of_find?_eq_some hf) x hx name]

/-- A scope whose slots have no numbers. -/
def unnumbered (s : Scope) : Scope :=
  { s with slots := s.slots.map Slot.unnumbered }

lemma link_unnumbered (s : Scope) (slot : Slot) :
    s.unnumbered.link slot.unnumbered = (s.link slot).unnumbered := by
  have known : (s.unnumbered.slot? slot.unnumbered.name).isSome = (s.slot? slot.name).isSome := by
    simp only [Scope.slot?, unnumbered, find?_map, Option.isSome_map]
    rfl
  unfold Scope.link
  rw [known]
  split
  · simp only [unnumbered, map_map, Scope.mk.injEq, true_and, and_true]
    refine map_congr_left fun v _ => ?_
    simp only [Function.comp_apply]
    change (if v.name = slot.name then _ else _) = _
    split <;> rfl
  · simp [unnumbered, addSlot]

end Scope

lemma distinct_linkedScope (linked) : (linkedScope linked).Distinct := by
  have from_distinct (s : Scope) (h : s.Distinct) : (linked.foldl Scope.link s).Distinct := by
    induction linked generalizing s with
    | nil => exact h
    | cons x linked ih => exact ih _ (h.link x)
  exact from_distinct _ fun x hx => absurd hx not_mem_nil

lemma linkedScope_unnumbered (linked : List Slot) :
    linkedScope (linked.map Slot.unnumbered) = (linkedScope linked).unnumbered := by
  have folded (s : Scope) : (linked.map Slot.unnumbered).foldl Scope.link s.unnumbered =
      (linked.foldl Scope.link s).unnumbered := by
    induction linked generalizing s with
    | nil => rfl
    | cons x linked ih =>
      rw [map_cons, foldl_cons, foldl_cons, Scope.link_unnumbered, ih]
  exact folded { kind := .linked }

/-- **Linked slots get back the numbers they came with.** -/
theorem recode_linkedScope (linked) (i j : Nat) : (linkedScope linked).slots =
    (linkedScope (linked.map Slot.unnumbered)).slots.map (·.recode (.shift linked i j)) := by
  have back (x : Slot) (hx : x ∈ (linkedScope linked).slots) :
      x.unnumbered.recode (.shift linked i j) = x := by
    have found := (distinct_linkedScope linked).slot? hx
    simp only [Slot.recode, Slot.unnumbered, Recoding.shift, found, if_true, Option.map_some,
      Option.getD_some]
  rw [linkedScope_unnumbered, Scope.unnumbered, map_map]
  exact ((map_congr_left back).trans (map_id _)).symm

/-! ### Outcomes -/

section

variable (r : Recoding)

/-- A unit under new numbers: they are in its code and its exported slots. -/
def CompiledUnit.recode (u : CompiledUnit) : CompiledUnit :=
  { u with
    program := { u.program with body := u.program.body.recode r }
    exported := u.exported.map (·.recode r) }

/-- The outcome of a parse under new numbers.  Errors and messages have none. -/
def Compilation.recode (c : Compilation) : Compilation where
  result := c.result.map (·.recode r)
  supply := ⟨c.supply.slot + r.slots, c.supply.label + r.labels⟩
  log := c.log

end

namespace Parser

variable (p : Parser)

/-- What stays the same while the parser parses. -/
def context : ParseContext where
  eof := p.tokens.getLastD default
  strict := p.options.strict
  natives := p.natives
  bound := p.tokens.dropLast.length + 1

/-- The state in which a parser starts. -/
def start (linked : List Slot) (supply : Supply) : ParseState where
  last := p.tokens.headD (p.tokens.getLastD default)
  rest := p.tokens.dropLast
  scopes :=
    { linked := linkedScope linked, nextSlot := supply.slot, nextLabel := supply.label }

/-- **A parser starts over**: its outcome does not depend on what it has left behind. -/
theorem parse_eq (linked supply) :
    (p.parse linked supply).1 = .ofResult p.options
      (p.tokens.headD (p.tokens.getLastD default)).location
      ((parseUnit p.context.bound).run p.context (p.start linked supply)) := by
  -- The scopes are reset, so of the old state only the numbers could be left, and they are replaced.
  unfold parse
  dsimp only
  split
  · rename_i statements s hr
    have run : (parseUnit p.context.bound).run p.context (p.start linked supply) =
      .ok statements s := hr
    rw [run]
    rfl
  · rename_i e s hr
    have run : (parseUnit p.context.bound).run p.context (p.start linked supply) = .error e s := hr
    rw [run]
    rfl

/-- **A parser gives recoded outcomes from other numbers on.** -/
theorem parse_recode {r : Recoding}
    (hn : ∀ name f, p.natives.lookup name = some f → r.natives f = f) {linked linked'}
    (hl : (linkedScope linked').slots = (linkedScope linked).slots.map (·.recode r))
    (supply : Supply) (hs : r.Moves supply.slot) :
    (p.parse linked' ⟨supply.slot + r.slots, supply.label + r.labels⟩).1 =
      (p.parse linked supply).1.recode r := by
  have slots (k n : Nat) (_ : supply.slot + k < n) :
      r.coding.slotNumber (supply.slot + k) (supply.slot + r.slots + k) :=
    ⟨Nat.add_right_comm _ _ _, hs.imp_left fun h => Nat.le_add_right_of_le h⟩
  have labels (k n : Nat) (_ : supply.label + k < n) :
      r.coding.labelNumber (supply.label + k) (supply.label + r.labels + k) :=
    Nat.add_right_comm _ _ _
  have parsed := r.lawful.parsed p.context.bound p.context
    (p.tokens.headD (p.tokens.getLastD default)) p.tokens.dropLast
    (fun t _ => ⟨rfl, rfl, rfl, rfl, fun _ => trivial, fun _ => rfl⟩) hn (linkedScope linked)
    (linkedScope linked') (hl ▸ forall₂_map_right_iff.2 (forall₂_same.2 fun _ _ => rfl))
    ⟨Scope.labels_foldl_link _ _, Scope.labels_foldl_link _ _⟩ (fun k => slots k _)
    (fun k => labels k _) (Nat.le_refl _) (Nat.le_refl _)
  have start (linked : List Slot) (s : Supply) : p.start linked s = .fresh
    (p.tokens.headD (p.tokens.getLastD default)) p.tokens.dropLast (linkedScope linked) s.slot
      s.label := rfl
  simp only [parse_eq, start]
  generalize (parseUnit _).run _ (.fresh _ _ _ supply.slot supply.label) = x at parsed ⊢
  generalize (parseUnit _).run _ (.fresh _ _ _ (supply.slot + r.slots) _) = x' at parsed ⊢
  -- As many numbers have been handed out, so the next ones are as far apart as the first were.
  have next {s s' : ParseState} (h : s.EndsLike (supply.slot, supply.slot + r.slots)
      (supply.label, supply.label + r.labels) s') :
      Supply.mk s'.scopes.nextSlot s'.scopes.nextLabel =
        ⟨s.scopes.nextSlot + r.slots, s.scopes.nextLabel + r.labels⟩ := by
    have slots := h.slots
    have labels := h.labels
    simp only [Supply.mk.injEq]
    dsimp only at slots labels
    omega
  cases parsed with
  | error e ends =>
    simp only [Compilation.ofResult, Compilation.recode, ends.errors, next ends]
    rfl
  | ok statements globals ends =>
    simp only [Compilation.ofResult, Compilation.recode, ends.errors, next ends, Except.map,
      CompiledUnit.recode, Block.recode, Stmt.recodeAll_eq, eq_map_of_forall₂ statements,
      eq_map_of_forall₂ globals]

lemma parse_shift (linked) (i j : Nat) :
    (p.parse linked ⟨1 + i, 1 + j⟩).1 =
      (p.parse (linked.map Slot.unnumbered) {}).1.recode (.shift linked i j) :=
  p.parse_recode (r := .shift linked i j) (fun _ _ _ => rfl) (recode_linkedScope linked i j) {}
    (.inl (Nat.le_refl 1))

lemma parse_keeps (linked supply) :
    (p.parse linked supply).2.tokens = p.tokens ∧
      (p.parse linked supply).2.options = p.options ∧
      (p.parse linked supply).2.natives = p.natives := by
  unfold parse
  dsimp only
  split <;> exact ⟨rfl, rfl, rfl⟩

lemma parse_congr {q : Parser} (ht : q.tokens = p.tokens) (ho : q.options = p.options)
    (hn : q.natives = p.natives) (linked supply) :
    (q.parse linked supply).1 = (p.parse linked supply).1 := by
  simp only [parse_eq, context, start, ht, ho, hn]

end Parser

/-- **Parses do not leak into each other.**  Take the parse from the numbers one on, in which linked
slots have no number.  The parse with the linked slots as they are, the one from any other numbers on,
and the one by a parser that was used before are all the same up to the numbers: those handed out are
moved up, those of linked slots are theirs. -/
theorem parse_up_to_numbers (tokens : List Token) (options : CompileOptions) (natives : Registry)
    (linked : List Slot) (i j : Nat) :
    let c := parse tokens options natives (linked.map Slot.unnumbered) ⟨1, 1⟩
    parse tokens options natives linked ⟨1, 1⟩ = c.recode (.shift linked 0 0) ∧
    parse tokens options natives linked ⟨1 + i, 1 + j⟩ = c.recode (.shift linked i j) ∧
    ∀ (left : ParseState) (earlier : List Slot) (supply : Supply),
      let used := ((Parser.mk tokens options natives left).parse earlier supply).2
      (used.parse linked ⟨1 + i, 1 + j⟩).1 = c.recode (.shift linked i j) := by
  let p := Parser.new tokens options natives
  refine ⟨p.parse_shift linked 0 0, p.parse_shift linked i j, ?_⟩
  intro left earlier supply
  obtain ⟨ht, ho, hn⟩ := (Parser.mk tokens options natives left).parse_keeps earlier supply
  exact (p.parse_congr ht ho hn linked _).trans (p.parse_shift linked i j)

end DynScript

import DynScript.Proofs.JointUnits

/-!
# Joint parses

Two units, the second one linked to the first, are read as one unit of the tokens of both is: the
joint parse first runs in parallel with the parse of the first unit, with more labels announced and
more tokens to come, and then with that of the second unit, whose linked names it has among its own
global ones.

Main declarations: `JointParse`, `JointParse.exists_split`.
-/

namespace DynScript

open Parse List

/-- The numbers from `lo` up to `hi` are moved, the first of them to `lo'`. -/
def Moves (lo hi lo' i i' : Nat) : Prop :=
  lo ≤ i ∧ i < hi ∧ i' + lo = i + lo'

/-- Two units that are read without errors, the second one linked to what the first exports, and the
unit of both, the second one `lines` further down. -/
structure JointParse where
  options : CompileOptions
  natives : Registry
  bound : Value → Prop
  allowed : ∀ name f, natives.lookup name = some f → ∀ v ∈ f.bound, bound v
  tokens₁ : List Token
  tokens₂ : List Token
  eof₁ : Token
  eof₂ : Token
  lines : Nat
  supply : Supply
  supply' : Supply
  code₁ : List Stmt
  code₂ : List Stmt
  code : List Stmt
  done₁ : ParseState
  done₂ : ParseState
  done : ParseState
  parse₁ : CleanParse options natives tokens₁ eof₁ [] supply code₁ done₁
  parse₂ : CleanParse options natives tokens₂ eof₂ done₁.scopes.globals.slots
    ⟨done₁.scopes.nextSlot, done₁.scopes.nextLabel⟩ code₂ done₂
  joint : CleanParse options natives (tokens₁ ++ tokens₂.map (Token.down lines)) (eof₂.down lines) []
    supply' code done

namespace JointParse

variable (J : JointParse)

/-! ### The states of the parses -/

/-- The numbers from which the second unit is read. -/
def supply₂ : Supply :=
  ⟨J.done₁.scopes.nextSlot, J.done₁.scopes.nextLabel⟩

/-- The tokens of both units. -/
def tokens : List Token :=
  J.tokens₁ ++ J.tokens₂.map (Token.down J.lines)

/-- The state in which the declarations of the first unit are read. -/
def start₁ : ParseState :=
  .announced J.tokens₁ J.eof₁ [] J.supply

/-- The state in which the declarations of the second unit are read. -/
def start₂ : ParseState :=
  .announced J.tokens₂ J.eof₂ J.done₁.scopes.globals.slots J.supply₂

/-- The state in which the declarations of both units are read. -/
def start : ParseState :=
  .announced J.tokens (J.eof₂.down J.lines) [] J.supply'

/-- The labels of the first unit in the joint parse. -/
def names₁ : List Token :=
  (labelsAhead 0 J.tokens).take (labelsAhead 0 J.tokens₁).length

/-- The labels of the second unit in the joint parse. -/
def names₂ : List Token :=
  (labelsAhead 0 J.tokens).drop (labelsAhead 0 J.tokens₁).length

/-- The scopes of the joint parse when the labels of the first unit have been announced. -/
def middle : ScopeTable :=
  J.names₁.foldl announced (ParseState.start J.tokens (J.eof₂.down J.lines) [] J.supply').scopes

/-- The numbers that the joint parse has come to between the units. -/
def seam : Supply where
  slot := J.supply'.slot + (J.done₁.scopes.nextSlot - J.supply.slot)
  label := J.start.scopes.nextLabel + (J.done₁.scopes.nextLabel - J.start₁.scopes.nextLabel)

/-- The numbers and places in the code of the first unit and in the joint code. -/
def like₁ : Likeness where
  slots := Moves J.supply.slot J.done₁.scopes.nextSlot J.supply'.slot
  labels i i' := Moves J.supply.label J.start₁.scopes.nextLabel J.supply'.label i i' ∨
    Moves J.start₁.scopes.nextLabel J.done₁.scopes.nextLabel J.start.scopes.nextLabel i i'
  places p q := q = p ∨ q = p.down J.lines
  bound := J.bound

/-- The numbers and places in the code of the second unit and in the joint code. -/
def like₂ : Likeness where
  slots := Moves J.supply.slot J.done₂.scopes.nextSlot J.supply'.slot
  labels i i' := Moves J.done₁.scopes.nextLabel J.start₂.scopes.nextLabel J.middle.nextLabel i i' ∨
    Moves J.start₂.scopes.nextLabel J.done₂.scopes.nextLabel J.seam.label i i'
  places p q := q = p ∨ q = p.down J.lines
  bound := J.bound

/-! ### Labels ahead -/

lemma labelNames_tokens :
    labelNames J.tokens = labelNames J.tokens₁ ++ labelNames J.tokens₂ := by
  rw [tokens, J.parse₁.labelNames_append, J.parse₁.labelNames_eq, labelNames_down]

lemma names_append : labelsAhead 0 J.tokens = J.names₁ ++ J.names₂ :=
  (take_append_drop _ _).symm

lemma map_names :
    J.names₁.map (·.lexeme) = labelNames J.tokens₁ ∧
      J.names₂.map (·.lexeme) = labelNames J.tokens₂ := by
  have both := J.labelNames_tokens
  have length : (labelNames J.tokens₁).length = (labelsAhead 0 J.tokens₁).length := length_map _
  unfold names₁ names₂
  rw [map_take, map_drop]
  change (labelNames J.tokens).take _ = _ ∧ (labelNames J.tokens).drop _ = _
  rw [both, ← length, take_left, drop_left]
  exact ⟨rfl, rfl⟩

lemma forall₂_of_map_eq {α β γ : Type} {f : α → γ} {g : β → γ} {l : List α} {l' : List β}
    (h : l.map f = l'.map g) : Forall₂ (fun x y => f x = g y) l l' := by
  have same : Forall₂ Eq (l.map f) (l'.map g) := by
    rw [h]
    exact forall₂_refl _
  rwa [forall₂_map_left_iff, forall₂_map_right_iff] at same

lemma scopes_start : J.start.scopes = J.names₂.foldl announced J.middle := by
  rw [middle, ← foldl_append, ← names_append]
  rfl

/-! ### The first unit -/

lemma current_announced (tokens eof linked s) :
    (ParseState.announced tokens eof linked s).scopes.current =
      (ParseState.announced tokens eof linked s).scopes.globals := by
  simp [ScopeTable.current, CleanParse.inner_announced]

lemma like_start {o : Overlay} {s s' : Supply} (hb : o.before = []) (he : o.extra = [])
    (hs : ∀ k, s.slot + k < o.slotLimit → o.coding.slotNumber (s.slot + k) (s'.slot + k))
    (hl : ∀ k, s.label + k < o.labelLimit → o.coding.labelNumber (s.label + k) (s'.label + k))
    (hso : o.slotOrigins = (s.slot, s'.slot)) (hlo : o.labelOrigins = (s.label, s'.label))
    (tokens tokens' eof eof') :
    (ParseState.start tokens eof [] s).scopes.Like o (ParseState.start tokens' eof' [] s').scopes where
  inner := .nil
  globals :=
    { kind := rfl
      slots := ⟨[], by simp [Overlay.beforeAt, hb, ParseState.start, ScopeTable.reset], .nil⟩
      apart := forall_mem_nil _
      labels := fun _ _ => .none
      kept := by simp [Overlay.extraAt, he] }
  linked := by
    rw [hb]
    exact .nil
  unlabeled := ⟨rfl, rfl⟩
  nextSlot := hs
  nextLabel := hl
  slotsInStep := by
    rw [hso]
    exact Nat.add_comm _ _
  labelsInStep := by
    rw [hlo]
    exact Nat.add_comm _ _

/-- How the tables may differ while the labels of the first unit are announced. -/
def announcing₁ : Overlay where
  coding := .like J.like₁
  lawful := J.like₁.lawful
  slotLimit := J.done₁.scopes.nextSlot
  labelLimit := J.start₁.scopes.nextLabel
  slotOrigins := (J.supply.slot, J.supply'.slot)
  labelOrigins := (J.supply.label, J.supply'.label)
  before := []
  extra := []
  kept _ := none

lemma like_middle : J.start₁.scopes.Like J.announcing₁ J.middle := by
  have fresh : (ParseState.start J.tokens₁ J.eof₁ [] J.supply).scopes.Like J.announcing₁
      (ParseState.start J.tokens (J.eof₂.down J.lines) [] J.supply').scopes := by
    refine like_start rfl rfl (fun k hk => ?_) (fun k hk => ?_) rfl rfl _ _ _ _
    · exact ⟨Nat.le_add_right _ _, hk, by omega⟩
    · exact Or.inl ⟨Nat.le_add_right _ _, hk, by omega⟩
  refine fresh.foldl_announced (forall₂_of_map_eq J.map_names.1.symm) (fun x _ => ?_) (le_rfl)
  simp [announcing₁, Overlay.extraAt]

/-- How the tables may differ while the first unit is read: the joint one has the other labels of
the second unit too. -/
def overlay₁ : Overlay where
  coding := .like J.like₁
  lawful := J.like₁.lawful
  slotLimit := J.done₁.scopes.nextSlot
  labelLimit := J.done₁.scopes.nextLabel
  slotOrigins := (J.supply.slot, J.supply'.slot)
  labelOrigins := (J.start₁.scopes.nextLabel, J.start.scopes.nextLabel)
  before := []
  extra := (labelNames J.tokens₂).filter (· ∉ labelNames J.tokens₁)
  kept := J.start.scopes.globals.label?

lemma middle_current : J.middle.current = J.middle.globals := by
  have inner := J.like_middle.inner
  rw [start₁, CleanParse.inner_announced, forall₂_nil_left_iff] at inner
  simp [ScopeTable.current, inner]

variable {name : String}

lemma label?_start (h : name ∈ labelNames J.tokens₁ ∨ name ∉ labelNames J.tokens₂) :
    J.start.scopes.globals.label? name = J.middle.globals.label? name := by
  have current : J.start.scopes.current = J.start.scopes.globals := current_announced ..
  rw [← current, ← middle_current, scopes_start]
  refine label?_foldl_announced (h.imp (fun known => ?_) fun new x hx he => new ?_)
  · rw [← J.map_names.1] at known
    obtain ⟨x, hx, rfl⟩ := mem_map.1 known
    exact isSome_label?_foldl_announced hx
  · rw [← J.map_names.2, ← he]
    exact mem_map_of_mem hx

lemma like_start₁ : J.start₁.scopes.Like J.overlay₁ J.start.scopes := by
  have middle := J.like_middle
  have onward : J.middle.Onward J.start.scopes := by
    rw [scopes_start]
    exact onward_announced _ _
  have kind : J.start.scopes.globals.kind = J.middle.globals.kind := by
    have kept := onward.kind
    rwa [middle_current, start, current_announced] at kept
  have slots := CleanParse.slots_announced J.tokens₁ J.eof₁ [] J.supply
  have slots' := CleanParse.slots_announced J.tokens (J.eof₂.down J.lines) [] J.supply'
  refine ⟨?_, ⟨?_, ⟨[], ?_, ?_⟩, ?_, fun name hn => ?_, fun _ _ => rfl⟩, ?_, ?_, fun k hk => ?_,
    fun k hk => Or.inr ⟨Nat.le_add_right _ _, hk, by omega⟩, ?_, Nat.add_comm _ _⟩
  · rw [start₁, start, CleanParse.inner_announced, CleanParse.inner_announced]
    exact .nil
  · rw [kind]
    exact middle.globals.kind
  · exact slots'.1
  · rw [start₁, slots.1]
    exact .nil
  · rw [start₁, slots.1]
    exact forall_mem_nil _
  · have apart : name ∈ labelNames J.tokens₁ ∨ name ∉ labelNames J.tokens₂ := by
      simp only [overlay₁, Overlay.extraAt, ↓reduceIte, mem_filter, decide_eq_true_eq] at hn
      tauto
    rw [J.label?_start apart]
    exact rel_of_mem (middle.globals.labels name (by simp [announcing₁, Overlay.extraAt]))
      fun _ _ _ h => ⟨h.label, h.placed⟩
  · rw [onward.linked]
    exact middle.linked
  · rw [onward.linked]
    exact middle.unlabeled
  · rw [start₁, slots.2] at hk ⊢
    rw [start, slots'.2]
    exact ⟨Nat.le_add_right _ _, hk, by omega⟩
  · rw [start₁, slots.2, start, slots'.2]
    exact Nat.add_comm _ _

lemma otherwise : ∀ t ∈ (J.tokens₂.map (Token.down J.lines)).head?, t.kind ≠ .kwElse := by
  intro t ht
  rw [head?_map] at ht
  obtain ⟨x, hx, rfl⟩ := Option.map_eq_some_iff.1 ht
  exact Grammar.not_else_of_unit J.parse₂.run J.parse₂.clean x hx

/-- The parse of the first unit and the joint one. -/
def parallel₁ : Parallel where
  toOverlay := J.overlay₁
  full := False
  first := .ofUnit J.tokens₁ J.eof₁ J.options J.natives
  second := .ofUnit J.tokens (J.eof₂.down J.lines) J.options J.natives
  more := J.tokens₂.map (Token.down J.lines)
  eof_kind := .inr J.parse₁.eof_kind
  eof_kind_eq := J.parse₁.eof_kind.trans J.parse₂.eof_kind.symm
  natives := rfl
  allowed := J.allowed
  bound_le := by simp [ParseContext.ofUnit, tokens]
  otherwise := J.otherwise
  full_eof := False.elim
  full_bound := False.elim
  full_strict := False.elim
  full_more := False.elim
  full_improper := False.elim

lemma good₁ : J.parallel₁.Good J.done₁ where
  within :=
    { slots := le_rfl
      labels := le_rfl
      clear := by
        intro name hn
        have other : name ∉ labelNames J.tokens₁ := by
          simpa using (mem_filter.1 hn).2
        by_contra known
        obtain ⟨e, he⟩ := Option.ne_none_iff_exists'.1 known
        exact other (J.parse₁.mem_labelNames he) }
  errors := .inr J.parse₁.clean

/-- **The joint parse of the first unit.** -/
theorem exists_first : ∃ k₁ k₂ t m, J.code = k₁ ++ k₂ ∧
    Forall₂ (Stmt.Like J.like₁) J.code₁ k₁ ∧ J.parallel₁.Abreast J.done₁ t ∧
    Declares J.start k₁ t ∧ ((Grammar.unrolled (J.tokens.length + 1)).unit m).run
      (.ofUnit J.tokens (J.eof₂.down J.lines) J.options J.natives) t = .ok k₂ J.done := by
  have rounds : Parallel.Follows.Rounds J.parallel₁ (J.tokens₁.length + 1) (J.tokens.length + 1) :=
    ⟨by simp [tokens], False.elim⟩
  have abreast : J.parallel₁.Abreast J.start₁ J.start :=
    { rest := ⟨J.tokens₁, rfl, forall₂_same.2 fun t _ => ⟨rfl, rfl, rfl, .inl rfl, fun _ => trivial, False.elim⟩⟩
      scopes := J.like_start₁
      errors := rfl }
  exact Parallel.first_part (.unrolled rounds) (Grammar.sound_unrolled J.joint.eof_kind _) id abreast
    J.parse₁.run J.good₁ J.joint.run J.joint.clean

/-! ### The second unit -/

lemma map_targets_eq {w l l'} (h : Forall₂ (Stmt.Like w) l l') :
    (Stmt.targets l).map (·.name) = (Stmt.targets l').map (·.name) := by
  induction h with
  | nil => rfl
  | cons hs _ ih =>
    unfold Stmt.targets at ih ⊢
    cases hs with
    | label hl _ => simpa [Stmt.target?, hl.name] using ih
    | _ => exact ih

variable {J} {k₁ k₂ : List Stmt} {t : ParseState}

lemma not_mem_labelNames (hc : J.code = k₁ ++ k₂)
    (hk : Forall₂ (Stmt.Like J.like₁) J.code₁ k₁) (clean : t.errors = [])
    (hd : Declares J.start k₁ t) (hd' : Declares t k₂ J.done)
    (hn : name ∈ labelNames J.tokens₁) : name ∉ labelNames J.tokens₂ := by
  have names₁ : labelNames J.tokens₁ = (Stmt.targets k₁).map (·.name) := by
    rw [J.parse₁.labelNames_eq, map_targets_eq hk]
  have names₂ : labelNames J.tokens₂ = (Stmt.targets k₂).map (·.name) := by
    have both : labelNames J.tokens = _ := J.joint.labelNames_eq
    have split : Stmt.targets (k₁ ++ k₂) = Stmt.targets k₁ ++ Stmt.targets k₂ := filterMap_append
    rw [J.labelNames_tokens, names₁, hc, split, map_append] at both
    exact append_cancel_left both
  -- The label was announced at the start and has been placed behind the first unit.
  obtain ⟨e, he⟩ : ∃ e, J.start.scopes.current.label? name = some e := by
    have ahead : name ∈ labelNames J.tokens := by
      rw [J.labelNames_tokens]
      exact mem_append_left _ hn
    obtain ⟨x, hx, rfl⟩ := mem_map.1 ahead
    exact Option.isSome_iff_exists.1 (isSome_label?_foldl_announced hx)
  obtain ⟨f, hf, -, -⟩ := hd.onward.scopes.label? name e he
  have placed : f.placed = true := by
    by_contra unplaced
    have := ((hd.places clean name f hf).2 (Bool.eq_false_iff.2 unplaced)).2
    exact this (names₁ ▸ hn)
  intro again
  rw [names₂] at again
  obtain ⟨x, hx, rfl⟩ := mem_map.1 again
  have := hd'.unplaced (J.joint.clean.trans clean.symm) x hx f hf
  rw [placed] at this
  cases this

lemma seam_eq (ht : J.parallel₁.Abreast J.done₁ t) :
    t.scopes.nextSlot = J.seam.slot ∧ t.scopes.nextLabel = J.seam.label := by
  have slots : J.done₁.scopes.nextSlot + J.supply'.slot = t.scopes.nextSlot + J.supply.slot :=
    ht.scopes.slotsInStep
  have labels : J.done₁.scopes.nextLabel + J.start.scopes.nextLabel =
      t.scopes.nextLabel + J.start₁.scopes.nextLabel := ht.scopes.labelsInStep
  have slot_le : J.supply.slot ≤ J.done₁.scopes.nextSlot := J.parse₁.onward.nextSlot
  have label_le : J.start₁.scopes.nextLabel ≤ J.done₁.scopes.nextLabel :=
    J.parse₁.declares.1.onward.scopes.nextLabel
  unfold seam
  constructor <;> dsimp only <;> omega

variable (J)

/-- How the tables may differ while the labels of the second unit are announced: the joint one has
those of the first unit. -/
def announcing₂ : Overlay where
  coding := .like J.like₂
  lawful := J.like₂.lawful
  slotLimit := 0
  labelLimit := J.start₂.scopes.nextLabel
  slotOrigins := (J.supply₂.slot, J.supply'.slot)
  labelOrigins := (J.supply₂.label, J.middle.nextLabel)
  before := []
  extra := labelNames J.tokens₁
  kept := J.middle.globals.label?

lemma scopes_start₂ : J.start₂.scopes =
    { (ParseState.announced J.tokens₂ J.eof₂ [] J.supply₂).scopes with
      linked := J.done₁.scopes.globals.slots.foldl Scope.link { kind := .linked } } :=
  foldl_announced_linked (t := (ParseState.start J.tokens₂ J.eof₂ [] J.supply₂).scopes) _ _

lemma like_before₂ :
    (ParseState.start J.tokens₂ J.eof₂ [] J.supply₂).scopes.Like J.announcing₂ J.middle := by
  have middle := J.like_middle
  have onward : (ParseState.start J.tokens (J.eof₂.down J.lines) [] J.supply').scopes.Onward J.middle :=
    onward_announced _ _
  have kind := onward.kind
  have slots := CleanParse.slots_announced J.tokens₁ J.eof₁ [] J.supply
  have inner := middle.inner
  obtain ⟨own, he, hs⟩ := middle.globals.slots
  have step := middle.slotsInStep
  rw [start₁, CleanParse.inner_announced, forall₂_nil_left_iff] at inner
  rw [start₁, slots.1, forall₂_nil_left_iff] at hs
  rw [start₁, slots.2] at step
  rw [middle_current] at kind
  refine ⟨?_, ⟨kind.symm, ⟨[], ?_, .nil⟩, forall_mem_nil _, fun name hn => ?_, fun _ _ => rfl⟩,
    ?_, ?_, fun k hk => absurd hk (Nat.not_lt_zero _), fun k hk => Or.inl ?_, ?_, Nat.add_comm _ _⟩
  · rw [inner]
    exact .nil
  · rw [he, hs]
    rfl
  · have known := middle.globals.labels name (by simp [announcing₁, Overlay.extraAt])
    have none : J.start₁.scopes.globals.label? name = none := by
      by_contra some
      obtain ⟨e, he⟩ := Option.ne_none_iff_exists'.1 some
      rw [start₁, ← current_announced] at he
      exact hn (CleanParse.awaits name e he).2
    rw [none] at known
    rw [(rel_trans_none known).1 rfl]
    exact .none
  · rw [onward.linked]
    exact .nil
  · rw [onward.linked]
    exact ⟨rfl, rfl⟩
  · exact ⟨Nat.le_add_right _ _, hk, by dsimp only [ParseState.start, ScopeTable.reset, supply₂]; omega⟩
  · dsimp only [announcing₁, announcing₂, ParseState.start, ScopeTable.reset] at step ⊢
    omega

lemma like_announced₂ (apart : ∀ name ∈ labelNames J.tokens₁, name ∉ labelNames J.tokens₂) :
    (ParseState.announced J.tokens₂ J.eof₂ [] J.supply₂).scopes.Like J.announcing₂
      J.start.scopes := by
  have limit : (ParseState.announced J.tokens₂ J.eof₂ [] J.supply₂).scopes.nextLabel ≤
      J.announcing₂.labelLimit :=
    le_of_eq (by rw [announcing₂, scopes_start₂])
  rw [scopes_start]
  refine J.like_before₂.foldl_announced (forall₂_of_map_eq J.map_names.2.symm) (fun x hx hn => ?_) limit
  exact apart x.lexeme hn (mem_map_of_mem hx)

/-- How the tables may differ while the second unit is read behind `t`: the joint one has the global
slots and labels of the first unit. -/
def overlay₂ (t : ScopeTable) : Overlay where
  coding := .like J.like₂
  lawful := J.like₂.lawful
  slotLimit := J.done₂.scopes.nextSlot
  labelLimit := J.done₂.scopes.nextLabel
  slotOrigins := (J.supply₂.slot, t.nextSlot)
  labelOrigins := (J.start₂.scopes.nextLabel, t.nextLabel)
  before := t.globals.slots
  extra := labelNames J.tokens₁
  kept := t.globals.label?

lemma label?_announced_eq_none {tokens eof linked s} (h : name ∉ labelNames tokens) :
    (ParseState.announced tokens eof linked s).scopes.globals.label? name = none := by
  by_contra some
  obtain ⟨e, he⟩ := Option.ne_none_iff_exists'.1 some
  rw [← current_announced] at he
  exact h (CleanParse.awaits name e he).2

lemma like_start₂ (ht : J.parallel₁.Abreast J.done₁ t)
    (apart : ∀ name ∈ labelNames J.tokens₁, name ∉ labelNames J.tokens₂) :
    J.start₂.scopes.Like (J.overlay₂ t.scopes) t.scopes := by
  obtain ⟨nextSlot, nextLabel⟩ := seam_eq ht
  have announced := J.like_announced₂ apart
  have inner := ht.scopes.inner
  rw [J.parse₁.inner, forall₂_nil_left_iff] at inner
  have kind : J.start.scopes.globals.kind = t.scopes.globals.kind := by
    have kept := J.parse₁.declares.1.onward.scopes.kind
    rw [ScopeTable.current, J.parse₁.inner, current_announced] at kept
    rw [← J.like_start₁.globals.kind, ← ht.scopes.globals.kind]
    exact kept.symm
  have slots₂ := CleanParse.slots_announced J.tokens₂ J.eof₂ J.done₁.scopes.globals.slots
    J.supply₂
  have unlinked : t.scopes.linked.slots = [] := by
    have linked := ht.scopes.linked
    rw [J.parse₁.onward.linked] at linked
    exact forall₂_nil_left_iff.1 linked
  have le : J.supply.slot ≤ J.done₁.scopes.nextSlot := J.parse₁.onward.nextSlot
  refine ⟨?_, ⟨?_, ⟨[], (append_nil _).symm, ?_⟩, ?_, fun name hn => ?_, fun _ _ => rfl⟩, ?_, ?_,
    fun k hk => ?_, fun k hk => Or.inr ?_, ?_, Nat.add_comm _ _⟩
  · rw [inner, start₂, CleanParse.inner_announced]
    exact .nil
  · rw [scopes_start₂, ← kind]
    exact announced.globals.kind
  · rw [start₂, slots₂.1]
    exact .nil
  · rw [start₂, slots₂.1]
    exact forall_mem_nil _
  · have other : name ∉ labelNames J.tokens₁ := hn
    by_cases known : name ∈ labelNames J.tokens₂
    · have kept : t.scopes.globals.label? name = J.start.scopes.globals.label? name :=
        ht.scopes.globals.kept name (mem_filter.2 ⟨known, by simpa using other⟩)
      rw [kept, scopes_start₂]
      exact rel_of_mem (announced.globals.labels name hn) fun _ _ _ h => ⟨h.label, h.placed⟩
    · have rel := ht.scopes.globals.labels name fun h => known (mem_filter.1 h).1
      have none : J.done₁.scopes.globals.label? name = none := by
        by_contra some
        obtain ⟨e, he⟩ := Option.ne_none_iff_exists'.1 some
        exact hn (J.parse₁.mem_labelNames he)
      rw [none] at rel
      rw [(rel_trans_none rel).1 rfl, start₂, label?_announced_eq_none known]
      exact .none
  · obtain ⟨own, globals, slots⟩ := ht.scopes.globals.slots
    have names : ((([] : List Slot) ++ J.done₁.scopes.globals.slots).map (·.name)).Nodup :=
      J.parse₁.nodup_names
    rw [scopes_start₂, unlinked, append_nil, Scope.slots_foldl_link_of_nodup names, overlay₂,
      globals]
    refine slots.imp fun x y h => ⟨?_, h.name, h.constant⟩
    exact ⟨h.id.1, lt_of_lt_of_le h.id.2.1 J.parse₂.onward.nextSlot, h.id.2.2⟩
  · rw [scopes_start₂]
    exact ⟨Scope.labels_foldl_link _ _, ht.scopes.unlabeled.2⟩
  · rw [start₂, slots₂.2] at hk ⊢
    rw [nextSlot]
    dsimp only [seam, supply₂] at hk ⊢
    exact ⟨by omega, hk, by omega⟩
  · rw [nextLabel]
    exact ⟨Nat.le_add_right _ _, hk, by omega⟩
  · rw [start₂, slots₂.2]
    exact Nat.add_comm _ _

/-- The parses of the second unit and of both, from the table `t` on. -/
def parallel₂ (t : ScopeTable) : Parallel where
  toOverlay := J.overlay₂ t
  full := False
  first := .ofUnit J.tokens₂ J.eof₂ J.options J.natives
  second := .ofUnit J.tokens (J.eof₂.down J.lines) J.options J.natives
  more := []
  eof_kind := .inr J.parse₂.eof_kind
  eof_kind_eq := rfl
  natives := rfl
  allowed := J.allowed
  bound_le := by simp [ParseContext.ofUnit, tokens]
  otherwise := Parallel.otherwise_nil
  full_eof := False.elim
  full_bound := False.elim
  full_strict := False.elim
  full_more := False.elim
  full_improper := False.elim

lemma abreast₂ (ht : J.parallel₁.Abreast J.done₁ t)
    (apart : ∀ name ∈ labelNames J.tokens₁, name ∉ labelNames J.tokens₂) :
    (J.parallel₂ t.scopes).Abreast J.start₂ t where
  rest := by
    obtain ⟨own, he, tokens⟩ := ht.rest
    rw [J.parse₁.declares.2, forall₂_nil_left_iff] at tokens
    rw [tokens, nil_append] at he
    refine ⟨_, by rw [he]; exact (append_nil _).symm, ?_⟩
    refine forall₂_map_right_iff.2 (forall₂_same.2 fun x _ => ?_)
    exact ⟨rfl, rfl, rfl, .inr rfl, fun _ => trivial, False.elim⟩
  scopes := J.like_start₂ ht apart
  errors := J.parse₁.clean.symm.trans ht.errors

lemma good₂ (t) (apart : ∀ name ∈ labelNames J.tokens₁, name ∉ labelNames J.tokens₂) :
    (J.parallel₂ t).Good J.done₂ where
  within :=
    { slots := le_rfl
      labels := le_rfl
      clear := by
        intro name hn
        by_contra known
        obtain ⟨e, he⟩ := Option.ne_none_iff_exists'.1 known
        exact apart name hn (J.parse₂.mem_labelNames he) }
  errors := .inr J.parse₂.clean

/-! ### Both units -/

/-- What is known about the joint code: it consists of the code of the two units, with like global
slots. -/
structure Split (k₁ k₂ : List Stmt) (x₁ x₂ : List Slot) : Prop where
  code : J.code = k₁ ++ k₂
  slots : J.done.scopes.globals.slots = x₁ ++ x₂
  code₁ : Forall₂ (Stmt.Like J.like₁) J.code₁ k₁
  code₂ : Forall₂ (Stmt.Like J.like₂) J.code₂ k₂
  slots₁ : Forall₂ (Slot.Like J.like₁) J.done₁.scopes.globals.slots x₁
  slots₂ : Forall₂ (Slot.Like J.like₂) J.done₂.scopes.globals.slots x₂
  nextSlot : J.done.scopes.nextSlot + J.done₁.scopes.nextSlot =
    J.done₂.scopes.nextSlot + J.seam.slot
  nextLabel_start : J.start.scopes.nextLabel + J.done₁.scopes.nextLabel =
    J.start₂.scopes.nextLabel + J.middle.nextLabel
  nextLabel : J.done.scopes.nextLabel + J.start₂.scopes.nextLabel =
    J.done₂.scopes.nextLabel + J.seam.label

/-- **The joint code is that of the two units.** -/
theorem exists_split : ∃ k₁ k₂ x₁ x₂, J.Split k₁ k₂ x₁ x₂ := by
  obtain ⟨k₁, k₂, t, m, code, like, ht, declares, rest⟩ := J.exists_first
  have clean : t.errors = [] := ht.errors.symm.trans J.parse₁.clean
  have declares' : Declares t k₂ J.done :=
    (Grammar.declares_unit (Grammar.sound_unrolled J.joint.eof_kind _) _ _ _ _ rest).1
  have apart (name : String) (hn : name ∈ labelNames J.tokens₁) : name ∉ labelNames J.tokens₂ :=
    not_mem_labelNames code like clean declares declares' hn
  have rounds : Parallel.Follows.Rounds (J.parallel₂ t.scopes) (J.tokens₂.length + 1)
      (J.tokens.length + 1) := ⟨by simp [tokens], False.elim⟩
  obtain ⟨like', final⟩ := Parallel.second_part (.unrolled rounds)
    (Grammar.sound_unrolled J.joint.eof_kind _) id rfl (J.abreast₂ ht apart) J.parse₂.run
    (J.good₂ t.scopes apart) rest J.joint.clean
  obtain ⟨own, globals, slots⟩ := ht.scopes.globals.slots
  obtain ⟨own', globals', slots'⟩ := final.scopes.globals.slots
  obtain ⟨nextSlot, nextLabel⟩ := seam_eq ht
  refine ⟨k₁, k₂, own, own', code, ?_, like, like', slots, slots', ?_, ?_, ?_⟩
  · rw [globals']
    exact congrArg (· ++ own') globals
  · have step : J.done₂.scopes.nextSlot + t.scopes.nextSlot =
        J.done.scopes.nextSlot + J.done₁.scopes.nextSlot := final.scopes.slotsInStep
    rw [← nextSlot, step]
  · have step : (ParseState.announced J.tokens₂ J.eof₂ [] J.supply₂).scopes.nextLabel +
        J.middle.nextLabel = J.start.scopes.nextLabel + J.done₁.scopes.nextLabel :=
      (J.like_announced₂ apart).labelsInStep
    rw [scopes_start₂, step]
  · have step : J.done₂.scopes.nextLabel + t.scopes.nextLabel =
        J.done.scopes.nextLabel + J.start₂.scopes.nextLabel := final.scopes.labelsInStep
    rw [← nextLabel, step]

end JointParse

end DynScript

import DynScript.Proofs.CallDepth
import DynScript.Proofs.LinkedUnits
import DynScript.Proofs.Orderly
import DynScript.Proofs.Safety

/-!
# Linked runs

A unit that is linked to another one is run behind it as it would be run if the two were one unit: the
outcomes are the same, and so is all that the runs leave behind, up to the numbers and places in the
code of functions.
-/

namespace DynScript

open List

/-! ### Global frames -/

namespace Skeleton

/-- No interpreter is lost, and each one keeps its global frame. -/
structure Retains (s t : Skeleton) : Prop where
  size : s.posts.size ≤ t.posts.size
  globals : ∀ i < s.posts.size, t.posts[i]?.map Post.globals = s.posts[i]?.map Post.globals

namespace Retains

variable {s t u : Skeleton}

lemma refl (s : Skeleton) : s.Retains s :=
  ⟨le_rfl, fun _ _ => rfl⟩

lemma trans (h : s.Retains t) (k : t.Retains u) : s.Retains u where
  size := le_trans h.size k.size
  globals i hi := (k.globals i (lt_of_lt_of_le hi h.size)).trans (h.globals i hi)

lemma count (s : Skeleton) (i) (f : Nat → Nat) : s.Retains (s.count i f) where
  size := by simp [Skeleton.count]
  globals j _ := by
    simp only [Skeleton.count, Array.getElem?_modify]
    split
    · cases s.posts[j]? <;> rfl
    · rfl

lemma leave (s : Skeleton) (mark) : s.Retains (s.leave mark) := by
  cases mark with
  | call owner caller => exact { count s owner (· - 1) with }
  | run caller => exact { refl s with }

lemma begin (s : Skeleton) (globals) : s.Retains (s.begin globals) where
  size := by simp [Skeleton.begin]
  globals j hj := by simp only [Skeleton.begin, Array.getElem?_push, if_neg (ne_of_lt hj)]

end Retains

end Skeleton

namespace Machine

variable {rules : Rules} {m n o : Machine}

lemma retains_step (rules) (m : Machine) : m.skeleton.Retains (m.step rules).skeleton := by
  have turn : Turn False m (m.step rules) := turn_step False.elim m
  cases turn with
  | calm calm =>
    rw [calm.skeleton]
    exact .refl _
  | @entered _ calm c _ _ skeleton _ =>
    rw [skeleton, calm.skeleton]
    exact { Skeleton.Retains.count m.skeleton c.owner (· + 1) with }
  | @left mark _ _ _ skeleton _ calm =>
    rw [calm.skeleton, skeleton]
    exact .leave _ mark
  | begun calm globals skeleton _ =>
    rw [skeleton, calm.skeleton]
    exact .begin _ globals

lemma retains_steps (rules) (fuel : Nat) (m : Machine) :
    m.skeleton.Retains (m.steps rules fuel).skeleton := by
  induction fuel generalizing m with
  | zero => exact .refl _
  | succ fuel ih =>
    unfold Machine.steps
    split
    · exact .refl _
    · exact (retains_step rules m).trans (ih _)

lemma globals_eq_of_retains (h : m.skeleton.Retains n.skeleton) {i} (hi : i < m.interpreters.size) :
    (n.interpreter i).globals = (m.interpreter i).globals := by
  have kept := h.globals i (by simpa [skeleton] using hi)
  change (n.interpreter i).post.globals = (m.interpreter i).post.globals
  rw [post_interpreter, post_interpreter, Array.getD_eq_getD_getElem?, Array.getD_eq_getD_getElem?]
  generalize n.skeleton.posts[i]? = p at kept
  generalize m.skeleton.posts[i]? = q at kept
  cases p <;> cases q <;> simp_all

end Machine

/-! ### Likeness that is not loose -/

section

variable {l : Prop} {A : Container → Prop}

lemma Value.Boxed.eq_of_not_loose {v v' : Value} (h : v.Boxed l A v') (hl : ¬ l) : v = v' := by
  cases h with
  | mk d hm hd => rw [hm.resolve_left fun h => hl h.1]

lemma Value.Held.eq_of_not_loose {v v' : Value} (h : v.Held l A v') (hl : ¬ l) : v = v' := by
  cases h with
  | boxed h => exact h.eq_of_not_loose hl
  | scalar _ _ _ h => exact h.resolve_left hl

lemma Value.Hosted.eq_of_not_loose {v v' : Value} (h : v.Hosted l A v') (hl : ¬ l) : v = v' := by
  cases h with
  | boxed h => exact h.eq_of_not_loose hl
  | same => rfl

lemma eq_of_forall₂_hosted (hl : ¬ l) {vs vs'} (h : Forall₂ (Value.Hosted l A) vs vs') :
    vs = vs' :=
  forall₂_eq_eq_eq ▸ h.imp fun _ _ hv => hv.eq_of_not_loose hl

lemma eq_of_forall₂_fields {κ : Type} (hl : ¬ l) {fs fs' : List (κ × Value)}
    (h : Forall₂ (fun f f' => f.1 = f'.1 ∧ f.2.Hosted l A f'.2) fs fs') : fs = fs' :=
  forall₂_eq_eq_eq ▸ h.imp fun _ _ hf => Prod.ext hf.1 (hf.2.eq_of_not_loose hl)

end

namespace Machine

variable {rules : Rules} {m n o : Machine}

/-! ### Machines that agree -/

/-- The value of a global variable of an interpreter. -/
def global (m : Machine) (i : Ref) (x : Slot) : Value :=
  m.load ⟨(m.interpreter i).globals, x.id⟩

/-- The same error, at the same place or `lines` further down. -/
structure SameError (lines : Nat) (e e' : RuntimeError) : Prop where
  fault : e.fault = e'.fault
  help : e.help = e'.help
  location : e'.location = e.location ∨ e'.location = e.location.map (Location.down lines)

/-- The same outcome of two runs: a value, which is the same one if `valued` holds, the same error, or
none yet. -/
inductive SameOutcome (lines : Nat) (valued : Prop) :
    Except RunError Value → Except RunError Value → Prop where
  | value {v v'} (h : valued → v = v') : SameOutcome lines valued (.ok v) (.ok v')
  | error {e e'} (h : SameError lines e e') :
    SameOutcome lines valued (.error (.runtime e)) (.error (.runtime e'))
  | unfinished : SameOutcome lines valued (.error .unfinished) (.error .unfinished)

lemma SameOutcome.mono {lines : Nat} {p q : Prop} {r r'} (h : SameOutcome lines p r r')
    (hq : q → p) : SameOutcome lines q r r' := by
  cases h with
  | value h => exact .value fun hv => h (hq hv)
  | error h => exact .error h
  | unfinished => exact .unfinished

lemma SameOutcome.toBool_eq {lines : Nat} {p : Prop} {r r'} (h : SameOutcome lines p r r') :
    r.toBool = r'.toBool := by
  cases h <;> rfl

/-- The same world, interpreters and containers, functions whose code differs in numbers and in
places at most `lines` down, and the same values of the global variables `x` and `x'` of the
interpreter `i`, which have the same names. -/
structure Agrees (lines : Nat) (i : Ref) (x x' : List Slot) (m m' : Machine) : Prop where
  world : m.world = m'.world
  interpreters : m.interpreters = m'.interpreters
  arrays : m.heap.arrays = m'.heap.arrays
  records : m.heap.records = m'.heap.records
  functions : ∃ w : Likeness, w.Exact ∧ (∀ p q, w.places p q → q = p ∨ q = p.down lines) ∧
    m.heap.functions.size = m'.heap.functions.size ∧
    ∀ r, (m.heap.function r).Like w (m'.heap.function r)
  globals : Forall₂ (fun g g' => g.name = g'.name ∧ g.constant = g'.constant ∧
    m.global i g = m'.global i g') x x'

/-- The same outcome on machines that agree. -/
def Concur (lines : Nat) (valued : Prop) (i : Ref) (x x' : List Slot)
    (r r' : Except RunError Value × Machine) : Prop :=
  SameOutcome lines valued r.1 r'.1 ∧ Agrees lines i x x' r.2 r'.2

/-- Runs two programs on an interpreter, the second one only if the first one gives a value. -/
def runBoth (rules : Rules) (fuel fuel' : Nat) (m : Machine) (i : Ref) (p q : Program) :
    Except RunError Value × Machine :=
  match m.run rules fuel i p with
  | (.ok _, m) => m.run rules fuel' i q
  | (.error e, m) => (.error e, m)

lemma step_run_give {caller} {v b} (hs : m.stack = [.run caller]) (hc : m.control = .give v)
    (convert : ∀ h, v.convert h = .ok b h) : m.step rules =
      { m with stack := [], collectors := m.collectors.tail, current := caller, control := .give b } := by
  simp only [step, hc, hs, resume, onHeap_eq, leaveRun, convert]
  rfl

lemma finish_run_give {caller} {v b} (hs : m.stack = [.run caller]) (hc : m.control = .give v)
    (convert : ∀ h, v.convert h = .ok b h) (fuel : Nat) :
    m.finish rules (fuel + 1) = (.ok b, m.step rules) := by
  have waiting : m.outcome? = none := outcome?_of_ne_nil (by simp [hs])
  have given : (m.step rules).outcome? = some (.ok b) := by
    rw [step_run_give hs hc convert]
    rfl
  rw [finish_succ waiting, finish_of_outcome given]
  rfl

section

variable {S : Setting} {w : Likeness} {A : Container → Prop} {m' : Machine} {lines : Nat}

lemma load_eq_of_akin (h : Akin S w A m m') (hl : ¬ S.loose) {i i' : Nat} (hi : w.slots i i') (r) :
    m.load ⟨r, i⟩ = m'.load ⟨r, i'⟩ := by
  have same := (h.frames r).get? h.exact hi (h.apart hi r)
  change ((frameAt m.frames r).get? i).getD .null = ((frameAt m'.frames r).get? i').getD .null
  generalize (frameAt m.frames r).get? i = o at same
  generalize (frameAt m'.frames r).get? i' = o' at same
  cases same with
  | none => rfl
  | some hv => exact hv.eq_of_not_loose hl

lemma load_eq_null_of_akin (h : Akin S w A m m') {i i' : Nat} (hi : ∀ j, ¬ w.slots i j)
    (hi' : ∀ j, ¬ w.slots j i') (r) (hs : ∀ c ∈ S.spare r, c.2 = .null) :
    m.load ⟨r, i⟩ = .null ∧ m'.load ⟨r, i'⟩ = .null := by
  obtain ⟨own, cells, like⟩ := (h.frames r).cells
  change ((frameAt m.frames r).cells.lookup i).getD .null = .null ∧
    ((frameAt m'.frames r).cells.lookup i').getD .null = .null
  have absent : (frameAt m.frames r).cells.lookup i = none := by
    rw [lookup_eq_none_iff]
    intro c hc
    obtain ⟨c', related, -⟩ := exists_of_forall₂ like hc
    simp only [bne_iff_ne]
    rintro rfl
    exact hi _ related
  have absent' : own.lookup i' = none := by
    rw [lookup_eq_none_iff]
    intro c' hc
    obtain ⟨c, -, related, -⟩ := exists_left_of_forall₂ like hc
    simp only [bne_iff_ne]
    rintro rfl
    exact hi' _ related
  rw [absent, cells, lookup_append, absent', Option.none_or]
  refine ⟨rfl, ?_⟩
  cases hv : (S.spare r).lookup i' with
  | none => rfl
  | some v => exact hs _ (mem_of_lookup hv)

lemma agrees_of_akin (h : Akin S w A m m') (hl : ¬ S.loose)
    (hp : ∀ p q, w.places p q → q = p ∨ q = p.down lines) {i : Ref} {x x' : List Slot}
    (hx : Forall₂ (fun g g' => g.name = g'.name ∧ g.constant = g'.constant ∧
      ∀ r, m.load ⟨r, g.id⟩ = m'.load ⟨r, g'.id⟩) x x') : Agrees lines i x x' m m' where
  world := h.world
  interpreters := h.interpreters
  arrays := by
    refine Array.ext h.heap.arrays_size fun r hr hr' => Array.toList_inj.1 ?_
    have same := eq_of_forall₂_hosted hl (h.heap.arrays r)
    simpa [Heap.array, hr, hr'] using same
  records := by
    refine Array.ext h.heap.records_size fun r hr hr' => ?_
    have fields := eq_of_forall₂_fields hl (h.heap.fields r)
    simp only [Heap.record, Array.getD_eq_getD_getElem?, Array.getElem?_eq_getElem hr,
      Array.getElem?_eq_getElem hr', Option.getD_some] at fields
    generalize m.heap.records[r] = x at fields
    generalize m'.heap.records[r] = x' at fields
    cases x
    cases x'
    cases fields
    rfl
  functions := ⟨w, h.exact, hp, h.heap.functions_size, h.heap.functions⟩
  globals := hx.imp fun g g' hg => ⟨hg.1, hg.2.1, by
    rw [global, global, interpreter, interpreter, h.interpreters]
    exact hg.2.2 _⟩

end

end Machine

/-! ### Results of passages -/

lemma Frame.extend_of_new {f : Frame} {slots} (h : ∀ x ∈ slots, f.get? x.id = none)
    (nodup : (slots.map (·.id)).Nodup) :
    f.extend slots = { f with cells := f.cells ++ slots.map fun x => (x.id, .null) } := by
  induction slots generalizing f with
  | nil => simp [Frame.extend]
  | cons x slots ih =>
    rw [map_cons, nodup_cons] at nodup
    have new : f.get? x.id = none := h x mem_cons_self
    have next := ih (f := { f with cells := f.cells ++ [(x.id, .null)] }) (fun y hy => ?_) nodup.2
    · simp only [Frame.extend, foldl_cons, new, Option.isSome_none, Bool.false_eq_true,
        ↓reduceIte] at next ⊢
      rw [next]
      simp
    · have other : y.id ≠ x.id := fun e => nodup.1 (e ▸ mem_map_of_mem hy)
      have old := h y (mem_cons_of_mem _ hy)
      simp only [Frame.get?, lookup_append] at old ⊢
      rw [old]
      simp [other]

namespace JointParse

open Machine

variable {J : JointParse} {k₁ k₂ : List Stmt} {x₁ x₂ : List Slot} {u v j : CompiledUnit}
  {w : Likeness} {A : Container → Prop}

lemma sameOutcome_of_like (hp : w.places = J.places) {r r'} (h : LikeResult w False A r r')
    (valued : Prop) : SameOutcome J.lines valued r r' := by
  cases h with
  | value hv => exact .value fun _ => hv.eq_of_not_loose id
  | @error e e' he =>
    refine .error ⟨he.fault, he.help, ?_⟩
    have place := he.location
    generalize e.location = o at place
    generalize e'.location = o' at place
    cases place with
    | none => exact .inl rfl
    | @some p q hpq =>
      rw [hp] at hpq
      exact hpq.imp (congrArg some) (congrArg some)
  | unfinished => exact .unfinished

variable (h : J.Split k₁ k₂ x₁ x₂) (hu : u.Reads J.code₁ J.done₁) (hv : v.Reads J.code₂ J.done₂)
  (hj : j.Reads J.code J.done)

lemma null_spare (r) : ∀ c ∈ (passage₁ h hu hj).spare r, c.2 = .null := by
  intro c hc
  dsimp only [passage₁] at hc
  split at hc
  · obtain ⟨x, -, rfl⟩ := mem_map.1 hc
    rfl
  · cases hc

include hv in
lemma agrees₁ {m m' : Machine} (le : J.like₁.Le w)
    (akin : Akin (passage₁ h hu hj).setting.resting w A m.atRest m'.atRest) :
    Agrees J.lines 0 (u.exported ++ v.exported) j.exported m m' := by
  have tied : J.reserve.Tied J.places w m.supply m'.supply := akin.tied
  have agrees : Agrees J.lines 0 (u.exported ++ v.exported) j.exported m.atRest m'.atRest := by
    refine agrees_of_akin akin id (by rw [tied.places_eq]; exact fun _ _ => id) ?_
    rw [hu.exported, hv.exported, hj.exported, h.slots]
    refine rel_append ?first ?second
    case first =>
      exact h.slots₁.imp fun g g' hg =>
        ⟨hg.name, hg.constant, load_eq_of_akin akin id (le.slots _ _ hg.id)⟩
    case second =>
      refine forall₂_iff_zip.2 ⟨h.slots₂.length_eq, fun {g g'} hg => ?_⟩
      have like := (forall₂_iff_zip.1 h.slots₂).2 hg
      obtain ⟨mem, mem'⟩ := of_mem_zip hg
      refine ⟨like.name, like.constant, fun r => ?_⟩
      -- The variables of the second unit are not there yet, or still null.
      obtain ⟨e, e'⟩ := load_eq_null_of_akin akin
        (fun i hi => (tied.slots.left hi).2 (J.apart_slots g mem))
        (fun i hi => (tied.slots.right hi).2 (h.apart_slots' g' mem')) r (null_spare h hu hj r)
      rw [e, e']
  exact { agrees with }

include hu in
lemma agrees₂ {m m' : Machine} (le : J.like₂.Le w)
    (akin : Akin (passage₂ h hv hj).setting.resting w A m.atRest m'.atRest) :
    Agrees J.lines 0 (u.exported ++ v.exported) j.exported m m' := by
  have tied : Reserve.none.Tied J.places w m.supply m'.supply := akin.tied
  have agrees : Agrees J.lines 0 (u.exported ++ v.exported) j.exported m.atRest m'.atRest := by
    refine agrees_of_akin akin id (by rw [tied.places_eq]; exact fun _ _ => id) ?_
    rw [hu.exported, hv.exported, hj.exported, h.slots]
    refine rel_append ?first ?second
    case first =>
      refine h.slots₁.imp fun g g' hg => ⟨hg.name, hg.constant, load_eq_of_akin akin id ?_⟩
      exact le.slots _ _ ⟨hg.id.1, lt_of_lt_of_le hg.id.2.1 h.order.slot₂, hg.id.2.2⟩
    case second =>
      exact h.slots₂.imp fun g g' hg =>
        ⟨hg.name, hg.constant, load_eq_of_akin akin id (le.slots _ _ hg.id)⟩
  exact { agrees with }

/-! ### Beginning the passages -/

variable {registry : Registry} {world : World} {limit : Int} {relinks : Bool} {rules : Rules}

include h hu hj in
lemma like_extend₁ : (({} : Frame).extend u.program.body.slots).Like J.like₁ False (fun _ => False)
    (x₂.map fun x => (x.id, .null)) (({} : Frame).extend j.program.body.slots) := by
  rw [hu.slots, hj.slots, Frame.extend_of_new (fun _ _ => rfl) J.parse₁.fresh_slots.1,
    Frame.extend_of_new (fun _ _ => rfl) J.joint.fresh_slots.1, h.slots]
  refine ⟨rfl, x₁.map fun x => (x.id, .null), by simp, ?_⟩
  simp only [nil_append]
  rw [forall₂_map_left_iff, forall₂_map_right_iff]
  exact h.slots₁.imp fun g g' hg => ⟨hg.id, .boxed .null⟩

/-- **The first unit and the joint one are begun alike** on fresh machines. -/
theorem begins₁ (hb : J.bound = Value.Free) (hf : Foreign registry world) :
    let s : Supply := ⟨J.done₂.scopes.nextSlot, J.done₂.scopes.nextLabel⟩
    let s' : Supply := ⟨J.done.scopes.nextSlot, J.done.scopes.nextLabel⟩
    let n := (initial registry s world limit relinks).atRest.startRun 0 u.program
    let n' := (initial registry s' world limit relinks).atRest.startRun 0 j.program
    Like (passage₁ h hu hj).setting J.like₁ (fun _ => False) n n' ∨
      (passage₁ h hu hj).Completes rules n n' := by
  intro s s'
  -- Before the variables are there, nothing is set apart.
  let S : Setting := { (passage₁ h hu hj).setting with
    spare := fun _ => []
    apart := fun _ _ => forall_mem_nil _ }
  have natives : registry.Allowed J.like₁ := by
    intro name f hn v hv
    change J.bound v
    rw [hb]
    exact hf.natives name f hn v hv
  have bound : ∀ v, J.like₁.bound v → v.Hosted False (fun _ => False) v := by
    change ∀ v, J.bound v → _
    rw [hb]
    exact fun _ => id
  have tied : S.tied J.like₁ s s' := h.tied₁
  have fresh := akin_initial tied (fun _ => rfl) natives bound hf.input limit relinks
  have frames (r : Ref) :
      (frameAt ((#[{}] : Array Frame).modify 0 (·.extend u.program.body.slots)) r).Like
      J.like₁ False (fun _ => False) ((passage₁ h hu hj).spare r)
      (frameAt ((#[{}] : Array Frame).modify 0 (·.extend j.program.body.slots)) r) := by
    cases r with
    | zero => exact like_extend₁ h hu hj
    | succ r => exact .of_cells none .nil
  let start (s : Supply) (x : List Slot) : Machine :=
    { initial registry s world limit relinks with
      frames := (#[{}] : Array Frame).modify 0 (·.extend x)
      collectors := [0]
      stack := [.run 0]
      control := .give .nothing }
  have akin : Akin (passage₁ h hu hj).closing J.like₁ (fun _ => False) (start s u.program.body.slots)
      (start s' j.program.body.slots) :=
    { fresh with
      tied := fresh.tied
      frames_size := by simp [start]
      frames := frames
      collectors := rfl
      stack := .foot ⟨.refl _, rfl, rfl, rfl, rfl⟩ }
  have begun : _ ∨ (passage₁ h hu hj).Completes rules _ _ := Passage.begins akin (.refl _) rfl rfl rfl rfl
  have statements : (passage₁ h hu hj).own ++ (passage₁ h hu hj).after = j.program.body.statements := by
    rw [hj.statements, h.code]
    rfl
  rw [statements] at begun
  exact begun

include h in
lemma like_extend₂ {f f' : Frame} {s s'} (ht : J.reserve.Tied J.places w s s')
    (hf : f.Like w False A (x₂.map fun x => (x.id, .null)) f') :
    (f.extend J.done₂.scopes.globals.slots).Like (J.extended w) False A [] f' := by
  obtain ⟨own, cells, like⟩ := hf.cells
  have new : ∀ x ∈ J.done₂.scopes.globals.slots, f.get? x.id = none := by
    intro x hx
    rw [Frame.get?, lookup_eq_none_iff]
    intro c hc
    obtain ⟨c', related, -⟩ := exists_of_forall₂ like hc
    simp only [bne_iff_ne]
    rintro e
    exact (ht.slots.left related).2 (e ▸ J.apart_slots x hx)
  rw [Frame.extend_of_new new J.parse₂.fresh_slots.1]
  refine ⟨hf.parent, f'.cells, (append_nil _).symm, ?_⟩
  rw [cells]
  refine rel_append (like.imp fun c c' hc => ⟨.inl hc.1, hc.2⟩) ?_
  rw [forall₂_map_left_iff, forall₂_map_right_iff]
  exact h.slots₂.imp fun g g' hg => ⟨.inr hg.id, .boxed .null⟩

/-- **Behind the first unit the machines are alike,** once variables for the second one are added. -/
theorem akin_closing₂ {n k} (le : J.like₁.Le w) (akin : Akin (passage₁ h hu hj).closing w A n k)
    (size : 0 < n.frames.size) (current : n.current = 0) (collectors : n.collectors = [0])
    (stack : k.stack = [.run 0]) :
    J.like₂.Le (J.extended w) ∧ Akin (passage₂ h hv hj).closing (J.extended w) A
      { n with
        frames := n.frames.modify 0 (·.extend v.program.body.slots)
        stack := [.run 0], control := .give .nothing } k := by
  have tied : J.reserve.Tied J.places w n.supply k.supply := akin.tied
  have wider : w.Le (J.extended w) := ⟨fun _ _ => .inl, fun _ _ => .inl, fun _ _ => id, fun _ => id⟩
  have base : J.like₂.Le (J.extended w) := by
    refine ⟨fun _ _ => .inr, fun _ _ => .inr, fun p q hp => ?_, le.bound⟩
    change w.places p q
    rw [tied.places_eq]
    exact hp
  refine ⟨base, { akin with
    tied := h.tied₂ le tied
    heap := akin.heap.mono wider
    frames_size := by simp [akin.frames_size]
    frames := fun r => ?_
    natives := fun name f hf => (akin.natives name f hf).mono wider
    bound := akin.bound
    stack := .foot ⟨base, current, collectors, rfl, stack⟩ }⟩
  -- Only the global frame gets variables, and nothing is set apart in it any more.
  have frame := akin.frames r
  by_cases hr : r < n.frames.size
  · rw [Grows.frameAt_modify _ _ _ _ hr]
    cases r with
    | zero =>
      rw [if_pos rfl, hv.slots]
      exact like_extend₂ h tied frame
    | succ r =>
      rw [if_neg (Nat.succ_ne_zero r).symm]
      exact frame.mono wider le_rfl
  · have none := Nat.le_of_not_lt hr
    have other : r ≠ 0 := by omega
    rw [frameAt_of_le none] at frame
    rw [frameAt_of_le (by simpa using none)]
    have spare : (passage₁ h hu hj).closing.spare r = [] := if_neg other
    rw [spare] at frame
    exact frame.mono wider le_rfl

/-! ### Both passages -/

include hu in
lemma concur₂ {r r'} (hr : (passage₂ h hv hj).Settles r r') (valued : Prop) :
    Concur J.lines valued 0 (u.exported ++ v.exported) j.exported r r' := by
  obtain ⟨w, A, le, result, akin⟩ := hr
  exact ⟨sameOutcome_of_like akin.tied.places_eq result valued, agrees₂ h hu hv hj le akin⟩

include hv in
lemma concur₁ {r r'} (hr : (passage₁ h hu hj).Settles r r') (valued : Prop) :
    Concur J.lines valued 0 (u.exported ++ v.exported) j.exported r r' := by
  obtain ⟨w, A, le, result, akin⟩ := hr
  exact ⟨sameOutcome_of_like akin.tied.places_eq result valued, agrees₁ h hu hv hj le akin⟩

include hu in
lemma concur_values {m m' a a' b b'} (le : J.like₂.Le w)
    (akin : Akin (passage₂ h hv hj).closing w A m m') (stack : m.stack = [.run 0])
    (stack' : m'.stack = [.run 0]) (control : m.control = .give a)
    (control' : m'.control = .give a') (convert : ∀ h, a.convert h = .ok b h)
    (convert' : ∀ h, a'.convert h = .ok b' h) (fuel : Nat) :
    Concur J.lines False 0 (u.exported ++ v.exported) j.exported (m.finish rules fuel)
      (m'.finish rules fuel) := by
  have agrees := agrees₂ h hu hv hj le akin.atRest
  cases fuel with
  | zero =>
    rw [finish_zero (outcome?_of_ne_nil (by simp [stack])),
      finish_zero (outcome?_of_ne_nil (by simp [stack']))]
    exact ⟨.unfinished, agrees⟩
  | succ fuel =>
    rw [finish_run_give stack control convert, finish_run_give stack' control' convert',
      step_run_give stack control convert, step_run_give stack' control' convert']
    exact ⟨.value False.elim, { agrees with }⟩

lemma startRun_step {n : Machine} {a b} (stack : n.stack = [.run 0]) (control : n.control = .give a)
    (convert : ∀ h, a.convert h = .ok b h) (current : n.current = 0)
    (collectors : n.collectors = [0]) (globals : (n.interpreter 0).globals = 0) (p) :
    (n.step rules).atRest.startRun 0 p =
      ({ n with
        frames := n.frames.modify 0 (·.extend p.body.slots)
        stack := [.run 0], control := .give .nothing } : Machine).runStatements p.body
          p.body.statements 0 := by
  rw [step_run_give stack control convert]
  change ({ n with
    frames := n.frames.modify (n.interpreter 0).globals (·.extend p.body.slots)
    collectors := [0], stack := [.run 0], current := 0, control := .give .nothing } :
      Machine).runStatements p.body p.body.statements (n.interpreter 0).globals = _
  rw [globals, current, collectors]

include hv in
/-- **The second unit is run as the rest of the joint one is.** -/
theorem concur_rest {n n'} (hn : (passage₁ h hu hj).Completes rules n n')
    (globals : (n.interpreter 0).globals = 0) {x y : Ref → List Slot}
    (fits : n.Fits ⟨⟨False, True⟩, none⟩ x)
    (fits' : ((n.step rules).atRest.startRun 0 v.program).Fits ⟨⟨False, True⟩, none⟩ y)
    (hh : rules.host.Uniform False) (ht : rules.host.Tame) (fuel : Nat) :
    Concur J.lines (v.program.body.statements ≠ []) 0 (u.exported ++ v.exported) j.exported
      (((n.step rules).atRest.startRun 0 v.program).finish rules fuel) (n'.finish rules fuel) := by
  cases hn with
  | @mk w A k a a' le akin stack stack' current collectors held control rest =>
  obtain ⟨b, b', convert, convert', -⟩ := HeapM.convert_of_held held
  obtain ⟨base, akin₂⟩ :=
    akin_closing₂ h hu hv hj le akin fits.sound.nonempty current collectors stack'
  change n' = k.resume rules (.block j.program.body k₂ 0) a' at rest
  rw [startRun_step stack control convert current collectors globals] at fits' ⊢
  have code := h.code₂
  by_cases none : v.program.body.statements = []
  · -- The second run gives null, while the joint one is left with the value of the first unit.
    rw [← hv.statements, none, forall₂_nil_left_iff] at code
    have last : n' = k.give a' := by
      rw [rest, code]
      rfl
    obtain ⟨same, agrees⟩ := concur_values h hu hv hj base
      (show Akin _ _ _ _ (k.give a') from { akin₂ with }) rfl stack' rfl rfl (b := .null)
      (fun _ => rfl) convert' fuel
    rw [last, none]
    exact ⟨same.mono fun some => some rfl, agrees⟩
  · -- The joint run goes on with the statements that the second run begins with.
    have begun : _ ∨ (passage₂ h hv hj).Completes rules _ _ :=
      Passage.begins akin₂ base current collectors rfl stack'
    have next : n' = k.runStatements j.program.body (k₂ ++ []) 0 := by
      rw [rest, append_nil]
      cases hk : k₂ with
      | nil =>
        rw [hk, forall₂_nil_right_iff] at code
        exact absurd (hv.statements.trans code) none
      | cons s rest => rfl
    rw [next]
    exact concur₂ h hu hv hj (Passage.settles_finish hh ht fits' base begun rfl fuel) _

lemma finish_of_completes {n n'} (hn : (passage₁ h hu hj).Completes rules n n') (fuel : Nat) :
    ∃ b, n.finish rules (fuel + 1) = (.ok b, n.step rules) := by
  cases hn with
  | @mk w A k a a' le akin stack stack' current collectors held control rest =>
  obtain ⟨b, b', convert, -⟩ := HeapM.convert_of_held held
  exact ⟨b, finish_run_give stack control convert fuel⟩

include hv in
lemma concur_between {n n'} (hn : (passage₁ h hu hj).Completes rules n n') (valued : Prop) :
    Concur J.lines valued 0 (u.exported ++ v.exported) j.exported
      (n.finish rules 0) (n'.finish rules 0) ∧ ∀ b, (n.finish rules 0).1 ≠ .ok b := by
  cases hn with
  | @mk w A k a a' le akin stack stack' current collectors held control rest =>
  change n' = k.resume rules (.block j.program.body k₂ 0) a' at rest
  have waiting : n.outcome? = none := outcome?_of_ne_nil (by simp [stack])
  have waiting' : n'.outcome? = none := by
    refine outcome?_of_ne_nil ?_
    rw [rest]
    cases k₂ <;> simp [resume, Machine.give, Machine.go, Machine.exec, stack']
  have same : n'.atRest = k.atRest := by
    rw [rest]
    cases k₂ <;> rfl
  rw [finish_zero waiting, finish_zero waiting']
  have still : Akin (passage₁ h hu hj).setting.resting w A n.atRest n'.atRest := by
    rw [same]
    exact akin.atRest
  exact ⟨⟨.unfinished, agrees₁ h hu hv hj le still⟩, fun b hb => by cases hb⟩

end JointParse

namespace Machine

open JointParse

/-! ### Linked runs -/

lemma runBoth_of_ne_ok {rules} {m : Machine} {i p} {fuel : Nat}
    (h : ∀ b, (m.run rules fuel i p).1 ≠ .ok b) (fuel' : Nat) (q) :
    m.runBoth rules fuel fuel' i p q = m.run rules fuel i p := by
  unfold runBoth
  split
  · rename_i b n hr
    exact absurd (congrArg Prod.fst hr) (h b)
  · rename_i hr
    exact hr.symm

lemma runBoth_of_ok {rules} {m n : Machine} {i p} {fuel : Nat} {b}
    (h : m.run rules fuel i p = (.ok b, n)) (fuel' : Nat) (q) :
    m.runBoth rules fuel fuel' i p q = n.run rules fuel' i q := by
  simp only [runBoth, h]

/-- **Running linked units is running the joint one.**  A text compiles without errors, so does another
one that is linked to the names the first one exports, and so do both in one text.  Then to every run of
the linked units there is one of the joint unit that concurs with it, and the other way round. -/
theorem linked_runs_agree {rules : Rules} (hh : rules.host.Uniform False) (ht : rules.host.Tame)
    {registry : Registry} {world : World} (hf : Foreign registry world) {options : CompileOptions}
    {a b : String} {s s' : Supply} {u v j : CompiledUnit}
    (hu : (DynScript.compile a options registry [] s).result = .ok u) (ou : u.ok)
    (hv : (DynScript.compile b options registry u.exported
      (DynScript.compile a options registry [] s).supply).result = .ok v) (ov : v.ok)
    (hj : (DynScript.compile (lineJoined a b) options registry [] s').result = .ok j) (oj : j.ok)
    (limit : Int) (relinks : Bool) :
    let linked := initial registry (DynScript.compile b options registry u.exported
      (DynScript.compile a options registry [] s).supply).supply world limit relinks
    let joint := initial registry (DynScript.compile (lineJoined a b) options registry [] s').supply
      world limit relinks
    let Same := Concur (lineCount a) (v.program.body.statements ≠ []) 0 (u.exported ++ v.exported)
      j.exported
    (∀ n₁ n₂, ∃ n, Same (linked.runBoth rules n₁ n₂ 0 u.program v.program)
      (joint.run rules n 0 j.program)) ∧
    ∀ n, ∃ n₁ n₂, Same (linked.runBoth rules n₁ n₂ 0 u.program v.program)
      (joint.run rules n 0 j.program) := by
  obtain ⟨J, bound, lines, first, second, both, supply, supply'⟩ :=
    JointParse.exists_of_compile hf.natives hu ou hv ov hj oj
  obtain ⟨k₁, k₂, x₁, x₂, h⟩ := J.exists_split
  rw [supply, supply', ← lines]
  intro linked joint Same
  have arises : Arises rules ⟨False, True⟩ (linked.atRest.startRun 0 u.program) _ :=
    .run (.initial ..) hu 0 Nat.one_pos (fun _ => ou) False.elim
  have fits := fits_of_arises ht arises
  have ends := fun fuel => Passage.finish_or_completes hh ht fits (.refl _)
    (begins₁ h first both bound hf) fuel
  -- Behind the first passage the linked machine takes a step more, which ends its run.
  have behind {k : Nat} (hk : (passage₁ h first both).Completes rules
      ((linked.atRest.startRun 0 u.program).steps rules k)
      ((joint.atRest.startRun 0 j.program).steps rules k)) (more fuel : Nat) :
      Same (linked.runBoth rules (k + (more + 1)) fuel 0 u.program v.program)
        (joint.run rules (k + fuel) 0 j.program) := by
    have kept : linked.skeleton.Retains
        ((linked.atRest.startRun 0 u.program).steps rules k).skeleton := by
      refine Skeleton.Retains.trans ?_ (retains_steps rules k _)
      rw [skeleton_startRun]
      exact { Skeleton.Retains.refl linked.skeleton with }
    obtain ⟨c, ran⟩ : ∃ c, linked.run rules (k + (more + 1)) 0 u.program =
        (.ok c, ((linked.atRest.startRun 0 u.program).steps rules k).step rules) := by
      obtain ⟨b, ran⟩ := finish_of_completes h first both hk more
      exact ⟨b, (finish_add ..).trans ran⟩
    rw [runBoth_of_ok ran, run, run, finish_add]
    have size : 0 <
        (((linked.atRest.startRun 0 u.program).steps rules k).step rules).interpreters.size := by
      refine Nat.lt_of_lt_of_le (m := linked.interpreters.size) Nat.one_pos ?_
      simpa only [skeleton, Array.size_map] using (kept.trans (retains_step rules _)).size
    exact concur_rest h first second both hk (globals_eq_of_retains kept Nat.one_pos)
      (fits_of_arises ht (arises.steps k))
      (fits_of_arises ht (.run (arises.steps k).step hv 0 size (fun _ => ov) False.elim)) hh ht fuel
  refine ⟨fun n₁ n₂ => ?_, fun n => ?_⟩
  · rcases ends n₁ with ⟨settles, fails⟩ | ⟨k, hk, completes⟩
    · refine ⟨n₁, ?_⟩
      rw [runBoth_of_ne_ok fails]
      exact concur₁ h first second both settles _
    · obtain ⟨t, rfl⟩ := Nat.exists_eq_add_of_le hk
      cases t with
      | zero =>
        -- The fuel of the first run is used up just before it ends.
        obtain ⟨same, fails⟩ := concur_between h first second both completes
          (v.program.body.statements ≠ [])
        rw [← finish_add, ← finish_add] at same
        rw [← finish_add] at fails
        refine ⟨k, ?_⟩
        rw [runBoth_of_ne_ok fails]
        exact same
      | succ t => exact ⟨k + n₂, behind completes t n₂⟩
  · rcases ends n with ⟨settles, fails⟩ | ⟨k, hk, completes⟩
    · refine ⟨n, 0, ?_⟩
      rw [runBoth_of_ne_ok fails]
      exact concur₁ h first second both settles _
    · obtain ⟨t, rfl⟩ := Nat.exists_eq_add_of_le hk
      exact ⟨k + 1, t, behind completes 0 t⟩

/-- A function of the first unit changes a variable that the second one prints. -/
theorem linked_runs_agree_shared : ∃ u v j : CompiledUnit,
    let a := DynScript.compile "var shared = 41; fun bump() { ++shared; }" {} .standard [] {}
    let b := DynScript.compile "bump(); print shared;" {} .standard u.exported a.supply
    let c := DynScript.compile
      (lineJoined "var shared = 41; fun bump() { ++shared; }" "bump(); print shared;") {} .standard [] {}
    (a.result = .ok u ∧ u.ok) ∧ (b.result = .ok v ∧ v.ok) ∧ (c.result = .ok j ∧ j.ok) ∧
    let linked := (initial .standard b.supply {} defaultLimit true).runBoth {} 40 40 0 u.program
      v.program
    linked.1.toBool ∧ linked.2.world.output = "42\n" ∧ ∃ n,
      let joint := (initial .standard c.supply {} defaultLimit true).run {} n 0 j.program
      joint.1.toBool ∧ joint.2.world.output = "42\n" := by
  have computed : (DynScript.compile "var shared = 41; fun bump() { ++shared; }" {} .standard []
      {}).result.toOption.any (fun u =>
        let b := DynScript.compile "bump(); print shared;" {} .standard u.exported
          (DynScript.compile "var shared = 41; fun bump() { ++shared; }" {} .standard [] {}).supply
        u.ok && b.result.toOption.any (fun v =>
          let linked := (initial .standard b.supply {} defaultLimit true).runBoth {} 40 40 0 u.program
            v.program
          v.ok && linked.1.toBool && linked.2.world.output = "42\n")) &&
      (DynScript.compile (lineJoined "var shared = 41; fun bump() { ++shared; }"
        "bump(); print shared;") {} .standard [] {}).result.toOption.any (·.ok) := by decide +kernel
  obtain ⟨computed, third⟩ := (Bool.and_eq_true _ _).mp computed
  obtain ⟨u, hu, computed⟩ := (Option.any_eq_true _ _).1 computed
  obtain ⟨ou, computed⟩ := (Bool.and_eq_true _ _).mp computed
  obtain ⟨v, hv, computed⟩ := (Option.any_eq_true _ _).1 computed
  obtain ⟨computed, output⟩ := (Bool.and_eq_true _ _).mp computed
  obtain ⟨ov, valued⟩ := (Bool.and_eq_true _ _).mp computed
  obtain ⟨j, hj, oj⟩ := (Option.any_eq_true _ _).1 third
  replace hu := eq_ok_of_toOption hu
  replace hv := eq_ok_of_toOption hv
  replace hj := eq_ok_of_toOption hj
  have uniform : ({} : Rules).host.Uniform False := Host.uniform_none False
  have foreign : Foreign .standard {} := ⟨Registry.allowed_standard, fun v hv => by cases hv⟩
  obtain ⟨n, same, agrees⟩ := (linked_runs_agree uniform Host.tame_none foreign hu ou hv ov hj oj
    defaultLimit true).1 40 40
  refine ⟨u, v, j, ⟨hu, ou⟩, ⟨hv, ov⟩, ⟨hj, oj⟩, valued, of_decide_eq_true output, n, ?_, ?_⟩
  · rw [← same.toBool_eq]
    exact valued
  · rw [← agrees.world]
    exact of_decide_eq_true output

end Machine

end DynScript

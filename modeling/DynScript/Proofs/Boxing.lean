import DynScript.Proofs.Endings
import DynScript.Proofs.Renumbering

/-!
# Boxes are invisible

A machine keeps constants and the outcomes of logical operators raw, and puts values in boxes and takes
them out where the compiled code says so.  A machine that keeps every value boxed does none of this.

Main declarations: `Machine.Corresponds`.
-/

namespace DynScript

/-- The same numbers and places, and native functions that are bound to like values. -/
def Likeness.same (A : Container → Prop) : Likeness where
  slots := Eq
  labels := Eq
  places := Eq
  bound v := v.Hosted True A v

/-- Machines that run the same code, with boxes where they like. -/
def Setting.boxing : Setting where
  loose := True
  spare _ := []
  foot _ _ _ s s' := ∃ caller, s = [.run caller] ∧ s' = [.run caller]
  tied w s s' := s = s' ∧ w.slots = Eq ∧ w.labels = Eq ∧ w.places = Eq
  foot_mono _ h := h
  exact := by
    rintro w s _ ⟨rfl, hs, hl, -⟩
    constructor
    · rw [hs]
      rintro i _ j _ rfl rfl
      rfl
    · rw [hl]
      rintro i _ j _ rfl rfl
      rfl
  apart _ _ := List.forall_mem_nil _
  compile := by
    rintro w s _ ⟨rfl, hs, hl, hp⟩ source natives hn
    have like := like_compile s s source Machine.evalOptions hn (by simp [hp]) .nil
      (by simp [hs]) (by simp [hl]) (Nat.le_refl _) (Nat.le_refl _)
    exact ⟨w, .refl w, rfl, ⟨rfl, hs, hl, hp⟩, rfl, like.2.1⟩

lemma Registry.allowed_standard {w} : Registry.standard.Allowed w := by
  intro name f hf v hv
  have member : (name, f) ∈ Registry.standard.entries := mem_of_lookup hf
  obtain ⟨b, -, hb⟩ := List.mem_map.1 member
  obtain ⟨-, rfl⟩ := Prod.mk.inj hb
  cases hv

namespace Machine

variable {host : Host} {A : Container → Prop} {m m' : Machine}

/-- States that differ only in boxes around scalars.  The containers of the language are those in
`A`, and all they hold is boxed. -/
def Corresponds (A : Container → Prop) (m m' : Machine) : Prop :=
  Akin Setting.boxing.resting (.same A) A m.atRest m'.atRest

/-- The same results: the same value, in boxes, or one and the same error. -/
inductive SameResult (A : Container → Prop) :
    Except RunError Value → Except RunError Value → Prop where
  | value {v v' : Value} (h : v.Boxed True A v') : SameResult A (.ok v) (.ok v')
  | error (e : RunError) : SameResult A (.error e) (.error e)

variable {w : Likeness}

lemma eq_of_like (hp : w.places = Eq) {e e' : RuntimeError} (h : e.Like w e') : e = e' := by
  obtain ⟨fault, location, help⟩ := e
  obtain ⟨fault', location', help'⟩ := e'
  obtain ⟨rfl, rfl, place⟩ := h
  rw [hp] at place
  cases place with
  | none => rfl
  | some e => cases e; rfl

lemma sameResult_of_like (hp : w.places = Eq) {r r'} (h : LikeResult w True A r r') :
    SameResult A r r' := by
  cases h with
  | value h => exact .value h
  | error h =>
    rw [eq_of_like hp h]
    exact .error _
  | unfinished => exact .error _

lemma corresponds_of_akin
    (h : Akin Setting.boxing.resting w A m.atRest m'.atRest) : m.Corresponds A m' := by
  obtain ⟨supply, slots, labels, places⟩ := h.tied
  have le : w.Le (.same A) :=
    ⟨fun i j => (congrFun (congrFun slots i) j).mp, fun i j => (congrFun (congrFun labels i) j).mp,
      fun p q => (congrFun (congrFun places p) q).mp, h.bound⟩
  exact { h with
    tied := ⟨supply, rfl, rfl, rfl⟩
    heap := h.heap.mono le
    frames := fun r => (h.frames r).mono le le_rfl
    natives := fun name f hf => (h.natives name f hf).mono le
    bound := fun _ hv => hv
    stack := .foot ⟨rfl, rfl⟩ }

lemma like_self (hs : w.slots = Eq) (hl : w.labels = Eq) (hp : w.places = Eq) {source options}
    {natives : Registry} (hn : natives.Allowed w) {linked supply} {u}
    (hu : (DynScript.compile source options natives linked supply).result = .ok u) :
    u.program.body.Like w u.program.body := by
  have slots : List.Forall₂ (Slot.Like w) linked linked :=
    List.forall₂_same.2 fun x _ => ⟨by rw [hs], rfl, rfl⟩
  have like := (like_compile supply supply source options hn (by simp [hp]) slots
    (by simp [hs]) (by simp [hl]) (Nat.le_refl _) (Nat.le_refl _)).2.1
  rw [hu] at like
  cases like with
  | unit body => exact body

/-- **Boxes are invisible.**  From corresponding states, every compiled program does the same to the
world and to the interpreters, gives the same value, in a box, or the same error, or is unfinished
after the same number of steps, and leaves corresponding states behind, whether the machine keeps
every value boxed or not. -/
theorem boxing_invisible (hh : host.Uniform True) (h : m.Corresponds A m') {source : String}
    {options : CompileOptions} {natives : Registry} (hn : natives.Allowed (.same A))
    {linked : List Slot} {supply : Supply} {u : CompiledUnit}
    (hu : (DynScript.compile source options natives linked supply).result = .ok u) (i : Ref)
    (fuel : Nat) :
    let r := m.run host fuel i u.program
    let r' := m'.run { host := host, alwaysBoxed := true } fuel i u.program
    r.2.world = r'.2.world ∧ r.2.interpreters = r'.2.interpreters ∧
      ∃ B, A ≤ B ∧ SameResult B r.1 r'.1 ∧ r.2.Corresponds B r'.2 := by
  have start : Akin Setting.boxing (.same A) A (m.atRest.inRun i) (m'.atRest.inRun i) :=
    { h with
      collectors := rfl, current := rfl, stack := .foot ⟨_, rfl, by rw [h.current]; rfl⟩ }
  have body := like_self (w := .same A) rfl rfl rfl hn hu
  obtain ⟨w, B, -, hA, result, akin⟩ :=
    like_finish hh (.inl trivial) (fun _ _ _ _ _ foot => foot) (like_startRun start rfl body) fuel
  exact ⟨akin.world, akin.interpreters, B, hA, sameResult_of_like akin.tied.2.2.2 result,
    corresponds_of_akin akin⟩

lemma corresponds_initial (supply) {registry : Registry}
    (hn : registry.Allowed (.same fun _ => False)) (world : World)
    (hi : ∀ v, world.hooks.waitInput = some v → v.Hosted True (fun _ => False) v) (limit : Int)
    (relinks : Bool) :
    Corresponds (fun _ => False) (initial registry supply world limit relinks)
      (initial registry supply world limit relinks) :=
  akin_initial (S := .boxing) (w := .same fun _ => False) ⟨rfl, rfl, rfl, rfl⟩ (fun _ => rfl) hn
    (fun _ hv => hv) hi limit relinks

/-- A constant is kept raw, its copy boxed, and their comparison raw again. -/
theorem boxing_invisible_constant : ∃ u : CompiledUnit,
    (DynScript.compile "let a = \"x\"; var b = a; print b == a && true; b;" {} .standard []
      {}).result = .ok u ∧
    let m := initial .standard {} {} defaultLimit true
    (m.run {} 40 0 u.program).2.world.output = "true\n" ∧
    (m.run { alwaysBoxed := true } 40 0 u.program).2.world.output = "true\n" ∧
    ∃ B, SameResult B (m.run {} 40 0 u.program).1
      (m.run { alwaysBoxed := true } 40 0 u.program).1 := by
  have computed : (match (DynScript.compile "let a = \"x\"; var b = a; print b == a && true; b;" {}
      .standard [] {}).result with
      | .ok u => ((initial .standard {} {} defaultLimit true).run {} 40 0
          u.program).2.world.output = "true\n"
      | .error _ => false) = true := by decide +kernel
  split at computed
  · rename_i u hu
    have fresh := corresponds_initial {} Registry.allowed_standard {} (fun v hv => by cases hv)
      defaultLimit true
    obtain ⟨world, -, B, -, result, -⟩ :=
      boxing_invisible (Host.uniform_none True) fresh Registry.allowed_standard hu 0 40
    have output := of_decide_eq_true computed
    exact ⟨u, hu, output, world ▸ output, B, result⟩
  · cases computed

end Machine

end DynScript

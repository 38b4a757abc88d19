import DynScript.Proofs.RunTrails

/-!
# Constants

Nothing that an application runs on a machine writes to a constant, but for the declaration of the
constant itself: no code that the parser makes assigns to a slot that was declared as one, a slot that
is linked to an earlier unit is declared there, and a number once given to a constant is never that of a
variable.
-/

namespace DynScript

namespace Node.Proper

variable {P : Slot → Prop} {x y : Node}

lemma target (h : x.Proper P) {slot} (hs : slot ∈ x.target?) : P slot := by
  refine (Node.proper_iff.1 h).1 slot ?_
  cases x with
  | stmt s => cases hs
  | expr e =>
    cases e with
    | assignVariable => exact hs
    | _ => cases hs

lemma has (h : x.Proper P) (hy : x.Has y) : y.Proper P := by
  induction hy with
  | refl => exact h
  | tail _ hy ih => exact (Node.proper_iff.1 ih).2.2.2.2 _ hy

end Node.Proper

/-- Code that assigns only to slots with numbers of variables. -/
def Assignable (constant : Nat → Bool) (x : Node) : Prop :=
  x.All fun y => ∀ slot ∈ y.target?, constant slot.id = false

lemma hereditary_assignable (constant : Nat → Bool) : Machine.Hereditary (Assignable constant) :=
  fun _ _ hx hy => hx.child hy

lemma assignable_of_made {constant : Nat → Bool} {T} {x : Node} (made : x.From T)
    (proper : x.Proper fun s => s.constant = constant s.id) : Assignable constant x :=
  fun y hy slot hs => ((proper.has hy).target hs).symm.trans ((made y hy).target slot hs)

namespace Machine

variable {m n : Machine}

lemma mem_stack_startRun (m : Machine) (i) {p : Program} {s rest}
    (hs : p.body.statements = s :: rest) :
    .block p.body rest (m.interpreter i).globals ∈ (m.startRun i p).stack := by
  unfold startRun runStatements
  rw [hs]
  exact List.mem_cons_self

lemma BeginsText.assignable {constant : Nat → Bool} {source} {u} (h : m.BeginsText n source u)
    (carries : n.Carries fun s => s.constant = constant s.id) :
    Assignable constant (.stmt (.block u.program.body)) := by
  obtain ⟨heap, code, place, rfl, hs, hr, hk⟩ := h
  have made := made_of_compile hr
  cases statements : u.program.body.statements with
  | nil =>
    -- Nothing of an empty unit is pending, but nothing is assigned to either.
    refine .intro nofun fun y hy => ?_
    rw [Node.children, Stmt.nodes, statements] at hy
    cases hy
  | cons s rest =>
    have pending : ∃ frame, .block u.program.body rest frame ∈
        (({ m with heap := heap } : Machine).evaluateText code place).stack := by
      unfold evaluateText
      simp only [hs, hr, hk, if_true]
      exact ⟨_, mem_stack_startRun _ _ statements⟩
    obtain ⟨frame, pending⟩ := pending
    exact assignable_of_made made (.block (carries.stack _ pending).1)

/-- The machine `n` comes from `m` by the step that ends a declaration: the value is stored in the
variable, in the frame `r`. -/
structure Declared (rules : Rules) (m n : Machine) (slot : Slot) (r : Ref) (v : Value) : Prop where
  step : n = m.step rules
  control : m.control = .give v
  pending : ∃ frame place, m.stack = .declare slot frame place :: n.stack ∧
    m.cell? slot frame = some ⟨r, slot.id⟩
  stored : (frameAt n.frames r).get? slot.id = some v

lemma Declares.declared {c} (h : m.Declares c) (rules) :
    ∃ slot v, slot.id = c.id ∧ m.Declared rules (m.step rules) slot c.frame v := by
  obtain ⟨v, slot, frame, place, S, hc, hs, found⟩ := h
  obtain ⟨id, holds⟩ := cellWithin_eq_some found
  have taken : m.step rules =
      ({ m with stack := S } : Machine).resume rules (.declare slot frame place) v := by
    simp only [Machine.step, hc, hs]
  have stepped : m.step rules = (({ m with stack := S } : Machine).store c v).give .nothing := by
    rw [taken, resume, withCell, show ({ m with stack := S } : Machine).cell? slot frame = some c
      from found]
  refine ⟨slot, v, id.symm, rfl, hc, ⟨frame, place, ?_, ?_⟩, ?_⟩
  · rw [stepped]
    exact hs
  · rw [← id]
    exact found
  · have lt : c.frame < m.frames.size := by
      by_contra ge
      rw [frameAt_of_le (Nat.le_of_not_lt ge)] at holds
      cases holds
    obtain ⟨old, holds⟩ := Option.isSome_iff_exists.1 holds
    have frames : (m.step rules).frames = m.frames.modify c.frame fun f => f.set c.id v := by
      rw [stepped]
      rfl
    rw [frames, Grows.frameAt_modify _ _ _ _ lt, if_pos rfl, Frame.get?_set, id, if_pos rfl, holds]
    rfl

end Machine

namespace History

variable {host : Host}

/-- **Constants are written by their declarations only.**  Throughout a history, numbers of slots are
those of constants or of variables once and for all, and nothing that runs assigns to a slot with the
number of a constant.  What a constant holds changes only in a step that ends a declaration of that
very constant, with the value of the declared expression. -/
theorem constant_write (hh : host.Orderly) (H : History host) : ∃ constant : Nat → Bool,
    (∀ n, (∀ u ∈ H.units n, (∀ s ∈ u.program.body.binders, s.constant = constant s.id) ∧
        Assignable constant (.stmt (.block u.program.body))) ∧
      (H.state n).Carries (fun s => s.constant = constant s.id) ∧
      ∀ c, (H.state n).heap.Holds c → Assignable constant (.stmt (.block c.code.body))) ∧
    ∀ n r id v, constant id = true → (frameAt (H.state n).frames r).get? id = some v →
      (frameAt (H.state (n + 1)).frames r).get? id = some v ∨
        ∃ slot w, slot.id = id ∧ slot.constant = true ∧
          (H.state n).Declared host (H.state (n + 1)) slot r w := by
  obtain ⟨roll, le, disciplined⟩ := H.exists_rolls hh
  obtain ⟨constant, same⟩ := exists_constant le
  have known {n : Nat} {s : Slot} (hs : (roll n).Lists s) : s.constant = constant s.id :=
    hs.constant.trans (same n s.id hs.limit)
  have carries (n : Nat) : (H.state n).Carries fun s => s.constant = constant s.id :=
    (disciplined n).carries.mono fun _ => known
  have units (n : Nat) (u : CompiledUnit) (hu : u ∈ H.units n) :
      Assignable constant (.stmt (.block u.program.body)) := by
    obtain ⟨_, _, _, _, _, hr⟩ := H.exists_source n u hu
    exact assignable_of_made (made_of_compile hr)
      (.block (((disciplined n).units u hu).1.mono fun _ => known))
  -- The code of a text is on the machine one step after the text has been taken up.
  have texts (n : Nat) (step : H.state (n + 1) = (H.state n).step host)
      (source : String) (u : CompiledUnit)
      (takes : (H.state n).TakesText host source u) :
      Assignable constant (.stmt (.block u.program.body)) :=
    takes.2.assignable (step ▸ carries (n + 1))
  have tracks (n : Nat) : ∃ L, (H.state n).Tracks (Assignable constant) L :=
    H.exists_tracks hh (hereditary_assignable constant) n (fun k _ => units k) fun k _ => texts k
  refine ⟨constant, fun n => ⟨fun u hu => ⟨fun s hs => ?_, units n u hu⟩, carries n, fun c hc => ?_⟩,
    fun n r id v hid hv => ?_⟩
  · exact known (((disciplined n).units u hu).2.2 s hs)
  · obtain ⟨L, tracks⟩ := tracks n
    exact tracks.functions c hc
  · obtain ⟨L, tracks⟩ := tracks n
    have untouched := tracks.untouched_of_move (hereditary_assignable constant) hh.keeps (H.move n)
      (texts n)
    by_cases written : H.state (n + 1) = (H.state n).step host ∧
        (H.state n).Writes L ⟨r, id⟩
    · obtain ⟨step, ⟨slot, u, l, inner, rfl⟩ | declares⟩ := written
      · have assigned := (tracks.known_of_innermost inner).self slot rfl
        rw [assigned] at hid
        cases hid
      · obtain ⟨slot, w, rfl, declared⟩ := declares.declared host
        obtain ⟨frame, place, pending, -⟩ := declared.pending
        have listed := (carries n).stack (.declare slot frame place)
          (pending ▸ List.mem_cons_self)
        exact .inr ⟨slot, w, rfl, listed.trans hid, step ▸ declared⟩
    · exact .inl (untouched r id v written hv)

/-- A constant gets its value where it is declared, after a variable has got one. -/
theorem constant_write_let : ∃ (H : History .none) (n : Nat) (slot : Slot) (w : Value),
    slot.constant = true ∧ w.string? = some "x" ∧
      (H.state n).Declared {} (H.state (n + 1)) slot 0 w := by
  have computed : (compile "var b = \"y\"; const a = \"x\"; b = b + a;" {} .standard []
      {}).result.toOption.any (fun u =>
        let m := (Machine.step {})^[8] (((Machine.initial .standard {} {} defaultLimit true).compile
          "var b = \"y\"; const a = \"x\"; b = b + a;" {} []).2.atRest.startRun
            Machine.mainInterpreter u.program)
        u.program.body.slots.any (fun s => s.id = 2 ∧ s.constant) &&
          (((frameAt m.frames 0).get? 2).any fun v => v.string?.isNone) &&
          ((frameAt (m.step {}).frames 0).get? 2).any fun v => v.string? = some "x") = true := by
    decide +kernel
  obtain ⟨u, hu, computed⟩ := (Option.any_eq_true _ _).1 computed
  dsimp only at computed
  rw [Bool.and_eq_true, Bool.and_eq_true] at computed
  obtain ⟨⟨bound, before⟩, after⟩ := computed
  obtain ⟨slot, hs, bound⟩ := List.any_eq_true.1 bound
  obtain ⟨id, isConstant⟩ := of_decide_eq_true bound
  obtain ⟨v, hv, blank⟩ := (Option.any_eq_true _ _).1 before
  obtain ⟨x, hx, text⟩ := (Option.any_eq_true _ _).1 after
  let H : History .none := running .none (eq_ok_of_toOption hu)
  have next : H.state 11 = (H.state 10).step {} := Function.iterate_succ_apply' (Machine.step {}) 8 _
  obtain ⟨constant, known, writes⟩ := constant_write Host.orderly_none H
  have binds : slot ∈ u.program.body.binders := by
    cases hb : u.program.body with
    | mk statements slots place =>
      rw [hb] at hs
      rw [Block.binders]
      exact List.mem_append_left _ hs
  have listed := ((known 10).1 u List.mem_cons_self).1 slot binds
  rw [isConstant, id] at listed
  have changed {w : Value} (hw : (frameAt (H.state 11).frames 0).get? 2 = some w) :
      w.string? = some "x" := by
    rw [next] at hw
    cases hw.symm.trans hx
    exact of_decide_eq_true text
  rcases writes 10 0 2 v listed.symm hv with same | ⟨slot, w, hid, hc, declared⟩
  · rw [changed same] at blank
    cases blank
  · exact ⟨H, 10, slot, w, hc, changed (hid ▸ declared.stored), declared⟩

end History

end DynScript

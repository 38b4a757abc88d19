import DynScript.Proofs.FitStep
import Mathlib.Logic.Function.Iterate

/-!
# Jumps land and variables are bound

An application runs units on the interpreters of a machine, calls functions they have made, resets
interpreters and changes what is around the machine, at any time.

Main declarations: `Machine.Arises`, `Machine.fits_of_arises`.
-/

namespace DynScript

open List

lemma Host.tame_none : Host.none.Tame :=
  fun _ _ _ h => ⟨.refl h, fun _ he => by cases he; trivial⟩

namespace Machine

variable {rules : Rules} {d : Demand} {x : Ref → List Slot} {m : Machine}

/-! ### The states of a machine -/

/-- The states that a machine goes through, and the names `x` exported by the units run on each
interpreter since its last reset.  If `d` asks for clean code, units have no errors; if for closed
code, they are linked to names that are there. -/
inductive Arises (rules : Rules) (d : Demand) : Machine → (Ref → List Slot) → Prop where
  | initial (registry : Registry) (supply : Supply) (world : World) (limit : Int) (relinks : Bool) :
    Arises rules d (.initial registry supply world limit relinks) fun _ => []
  | step {m : Machine} {x : Ref → List Slot} (h : Arises rules d m x) :
    Arises rules d (m.step rules) x
  | run {m : Machine} {x : Ref → List Slot} (h : Arises rules d m x) {source}
    {options} {natives} {linked} {supply}
    {u : CompiledUnit} (hu : (DynScript.compile source options natives linked supply).result = .ok u)
    (i : Ref) (hi : i < m.interpreters.size) (clean : d.clean → u.ok)
    (closed : d.closed → linked ⊆ x i) :
    Arises rules d (m.atRest.startRun i u.program) (Function.update x i (u.exported ++ x i))
  | invoke {m : Machine} {x : Ref → List Slot} (h : Arises rules d m x) (f : Value)
    (arguments : List Value) : Arises rules d (m.atRest.go (.apply (.value f) arguments none)) x
  | reset {m : Machine} {x : Ref → List Slot} (h : Arises rules d m x) (i : Ref) :
    Arises rules d (m.reset i) (Function.update x i [])
  | interpreter {m : Machine} {x : Ref → List Slot} (h : Arises rules d m x) (limit : Int)
    (relinks : Bool) : Arises rules d (m.newInterpreter limit relinks).2 x
  | heap {m : Machine} {x : Ref → List Slot} (h : Arises rules d m x) {heap}
    (keeps : m.heap.Keeps heap) : Arises rules d { m with heap := heap } x
  | outside {m : Machine} {x : Ref → List Slot} (h : Arises rules d m x) (registry : Registry)
    (supply : Supply) (world : World) :
    Arises rules d { m with registry := registry, supply := supply, world := world } x

lemma Arises.steps (h : Arises rules d m x) (fuel : Nat) :
    Arises rules d (m.steps rules fuel) x := by
  induction fuel generalizing m with
  | zero => exact h
  | succ fuel ih =>
    unfold Machine.steps
    split
    · exact h
    · exact ih h.step

/-! ### The code in these states -/

lemma Fits.learn (h : m.Fits ⟨d, none⟩ x) {i} (hi : i < m.interpreters.size) {V}
    (hV : Covers m.frames (m.interpreter i).globals V) :
    m.Fits ⟨d, none⟩ (Function.update x i (V ++ x i)) := by
  refine ⟨{ h.sound with globals := fun j => ?_, unknown := fun j hj => ?_ }, h.control⟩
  · by_cases hj : j = i
    · subst hj
      rw [Function.update_self]
      exact hV.append (h.sound.globals j)
    · rw [Function.update_of_ne hj]
      exact h.sound.globals j
  · have hne : j ≠ i := Ne.symm (Nat.ne_of_lt (Nat.lt_of_lt_of_le hi hj))
    rw [Function.update_of_ne hne]
    exact h.sound.unknown j hj

lemma Sound.atRest (h : m.Sound ⟨d, none⟩ x) : m.atRest.Sound ⟨d, none⟩ x :=
  { h with stack := trivial }

lemma frames_startRun (m : Machine) (i) (p) : (m.startRun i p).frames =
    m.frames.modify (m.interpreter i).globals fun f => f.extend p.body.slots := by
  unfold startRun runStatements
  dsimp only
  split <;> rfl

lemma interpreters_startRun (m : Machine) (i p) :
    (m.startRun i p).interpreters = m.interpreters := by
  unfold startRun runStatements
  dsimp only
  split <;> rfl

lemma covers_startRun (h : m.Sound ⟨d, none⟩ x) (i) (p) :
    Covers (m.startRun i p).frames ((m.startRun i p).interpreter i).globals p.body.slots := by
  have hlt : (m.interpreter i).globals < m.frames.size := (h.globals i).lt_size
  have hg : (m.startRun i p).interpreter i = m.interpreter i := by
    rw [interpreter, interpreters_startRun, interpreter]
  rw [hg, frames_startRun]
  refine ⟨by simpa using hlt, fun slot hs => .here ?_⟩
  rw [Grows.frameAt_modify _ _ _ _ hlt, if_pos rfl]
  exact Frame.isSome_get?_extend_self _ hs

lemma fits_initial (registry supply world) (limit : Int) (relinks : Bool) :
    (initial registry supply world limit relinks).Fits ⟨d, none⟩ fun _ => [] := by
  have empty : ∀ r, frameAt #[({} : Frame)] r = {} := by
    intro r
    cases r <;> rfl
  refine ⟨⟨?_, Nat.one_pos, ?_, ?_, fun _ _ => rfl, (fun _ hp => by cases hp), trivial⟩,
    trivial⟩
  · intro r p hp
    change (frameAt #[({} : Frame)] r).parent = _ at hp
    rw [empty] at hp
    cases hp
  · rintro c ⟨r, hr⟩
    rw [Heap.function, Array.getD_eq_getD_getElem?] at hr
    cases hr
  · intro i
    refine ⟨?_, fun _ hs => by cases hs⟩
    cases i <;> exact Nat.one_pos

lemma fits_reset (h : m.Fits ⟨d, none⟩ x) (i) :
    (m.reset i).Fits ⟨d, none⟩ (Function.update x i []) := by
  have pushed := h.sound.push (f := {}) fun _ hp => by cases hp
  refine ⟨{ pushed with globals := fun j => ?_, unknown := fun j hj => ?_ },
    h.control.grows (.push m.frames {})⟩
  · have old := pushed.globals j
    simp only [reset, newFrame, updateInterpreter, Array.getD_eq_getD_getElem?,
      Array.getElem?_modify] at old ⊢
    by_cases hj : j = i
    · subst hj
      rw [Function.update_self, if_pos rfl]
      refine ⟨?_, fun _ hs => by cases hs⟩
      cases hi : m.interpreters[j]? with
      | none => exact Nat.lt_of_lt_of_le h.sound.nonempty (by simp)
      | some n => simp
    · rw [Function.update_of_ne hj, if_neg (Ne.symm hj)]
      exact old
  · by_cases hi : j = i
    · rw [hi, Function.update_self]
    · rw [Function.update_of_ne hi]
      exact h.sound.unknown j (by simpa [reset, newFrame, updateInterpreter] using hj)

/-- **In every state the code is well scoped.** -/
theorem fits_of_arises (hh : rules.host.Tame) (h : Arises rules d m x) : m.Fits ⟨d, none⟩ x := by
  induction h with
  | initial registry supply world limit relinks => exact fits_initial ..
  | step _ ih => exact fits_step hh ih
  | @run m x _ source options natives linked supply u hu i hi clean closed ih =>
    have hc := scoped_of_compile hu
    have rest := ih.sound.atRest
    have started : (m.atRest.startRun i u.program).Fits ⟨d, none⟩ x := by
      refine fits_startRun rest (fun _ => ⟨_, hc.bound, fun hd => ⟨(ih.sound.globals i).lt_size, ?_⟩,
        fun _ hp => by cases hp⟩) (fun _ hp => by cases hp) fun hd => hc.lands ?_
      · exact fun slot hs => (ih.sound.globals i).seen slot (closed hd hs)
      · have := clean hd
        simp_all [CompiledUnit.ok]
    rw [hc.exported]
    refine started.learn ?_ (covers_startRun rest i u.program)
    rwa [interpreters_startRun]
  | invoke _ f arguments ih => exact ⟨ih.sound.atRest, trivial⟩
  | reset _ i ih => exact fits_reset ih i
  | @interpreter m x _ limit relinks ih =>
    exact ⟨sound_newInterpreter ih.sound limit relinks, ih.control.grows (.push m.frames {})⟩
  | heap _ keeps ih => exact ⟨ih.sound.keeps keeps, ih.control⟩
  | outside _ registry supply world ih => exact ⟨ih.sound, ih.control⟩

/-! ### Jumps -/

lemma exists_owner {id : Nat} {stack} (h : Owned id stack) :
    ∃ above owner below, stack = above ++ owner :: below ∧
      (∀ p ∈ above, p.Passes ∧ ¬p.Owns id) ∧ owner.Owns id := by
  induction stack with
  | nil => exact h.elim
  | cons p stack ih =>
    by_cases hp : p.Owns id
    · exact ⟨[], p, stack, rfl, forall_mem_nil _, hp⟩
    · obtain ⟨hpass, h⟩ := h.resolve_left hp
      obtain ⟨above, owner, below, rfl, habove, howner⟩ := ih h
      exact ⟨p :: above, owner, below, rfl, forall_mem_cons.2 ⟨⟨hpass, hp⟩, habove⟩, howner⟩

lemma step_passes {target} {v} (hm : m.control = .jump target v) {p} {stack}
    (hs : m.stack = p :: stack) (hp : p.Passes) (ho : ¬p.Owns target.id) :
    m.step rules = { m with stack := stack } := by
  simp only [step, hm, hs]
  unfold jumpThrough
  cases p with
  | block b rest frame =>
    have missed : b.resumeAt target = none :=
      Option.not_isSome_iff_eq_none.1 fun hr => ho (Block.isSome_afterLabel.1 hr)
    simp only [missed]
  | loopBody condition body step exit next frame =>
    have hexit : ¬target.id = exit.id := fun he => ho (.inl he)
    have hnext : ¬target.id = next.id := fun he => ho (.inr he)
    simp only [if_neg hexit, if_neg hnext]
  | discard => rfl
  | _ => exact hp.elim

lemma iterate_passes {target} {v} {above} (hm : m.control = .jump target v) {stack}
    (hs : m.stack = above ++ stack) (ha : ∀ p ∈ above, p.Passes ∧ ¬p.Owns target.id) :
    (step rules)^[above.length] m = { m with stack := stack } := by
  induction above generalizing m with
  | nil =>
    rw [nil_append] at hs
    rw [← hs]
    rfl
  | cons p above ih =>
    obtain ⟨hp, ha⟩ := forall_mem_cons.1 ha
    rw [length_cons, Function.iterate_succ_apply, step_passes hm hs hp.1 hp.2, ih]
    · exact hm
    · rfl
    · exact ha

/-- No jump is under way. -/
def Settled (m : Machine) : Prop :=
  ∀ target v, m.control ≠ .jump target v

lemma settled_runStatements (b rest frame) : (m.runStatements b rest frame).Settled := by
  cases rest <;> exact nofun

lemma settled_nextRound (condition body next? exit next frame) :
    (m.nextRound condition body next? exit next frame).Settled := by
  cases next? <;> exact nofun

lemma settled_jumpThrough {target : Label} {v} {p : Pending} (h : p.Owns target.id) :
    (m.jumpThrough p target v).Settled := by
  unfold jumpThrough
  cases p with
  | block b rest frame =>
    obtain ⟨rest', hr⟩ := Option.isSome_iff_exists.1 (Block.isSome_afterLabel.2 h)
    simp only [Block.resumeAt, hr]
    exact settled_runStatements b rest' frame
  | loopBody condition body step exit next frame =>
    dsimp only
    split
    · intro _ _ jump
      cases jump
    · rename_i hexit
      rw [if_pos (h.resolve_left hexit)]
      exact settled_nextRound condition body step exit next frame
  | call exit owner caller place =>
    have hexit : target.id = exit.id := h
    dsimp only
    rw [if_pos hexit, onHeap_eq]
    split
    all_goals
      intro _ _ jump
      cases jump
  | _ => exact h.elim

/-- A jump is caught: it passes by blocks, branches and loops that do not own its target, leaving no
call and no run, up to what owns it. -/
def Caught (rules : Rules) (m : Machine) (target : Label) : Prop :=
  ∃ above owner below, m.stack = above ++ owner :: below ∧
    (∀ p ∈ above, p.Passes ∧ ¬p.Owns target.id) ∧ owner.Owns target.id ∧
    (step rules)^[above.length] m = { m with stack := owner :: below } ∧
    ((step rules)^[above.length + 1] m).Settled

lemma caught_of_owned {target} {v} (hm : m.control = .jump target v) (h : Owned target.id m.stack) :
    m.Caught rules target := by
  obtain ⟨above, owner, below, hs, ha, ho⟩ := exists_owner h
  have passed := @iterate_passes rules _ _ _ _ hm _ hs ha
  refine ⟨above, owner, below, hs, ha, ho, passed, ?_⟩
  rw [Function.iterate_succ_apply', passed]
  simp only [step, hm]
  exact settled_jumpThrough ho

/-! ### Errors -/

lemma fault_of_outcome (hh : rules.host.Tame) (h : Arises rules d m x) {e}
    (he : m.outcome? = some (.error e)) : (d.closed → ∀ name, e.fault ≠ .unbound name) ∧
      (d.clean → ∀ name, e.fault ≠ .undefinedLabel name) := by
  have hc := (fits_of_arises hh h).control
  unfold outcome? at he
  split at he
  · cases he
  · rename_i hr
    cases he
    rwa [hr] at hc
  · rename_i hs hj
    cases he
    rw [hs, hj] at hc
    exact ⟨nofun, fun hd => (hc hd).elim⟩
  · cases he

lemma fault_of_finish (hh : rules.host.Tame) (h : Arises rules d m x) {fuel : Nat} {e}
    (he : (m.finish rules fuel).1 = .error (.runtime e)) :
    (d.closed → ∀ name, e.fault ≠ .unbound name) ∧
      (d.clean → ∀ name, e.fault ≠ .undefinedLabel name) := by
  refine fault_of_outcome hh (h.steps fuel) ?_
  unfold finish at he
  dsimp only at he
  split at he <;> cases he
  assumption

/-- **Jumps land.**  Where only units without errors are run, every jump is caught in the call it was
made in by what owns its target, and neither a run nor a call ends with a jump to an undefined
label. -/
theorem jump_lands (hh : rules.host.Tame) (h : Arises rules ⟨False, True⟩ m x) :
    (∀ target v, m.control = .jump target v → m.Caught rules target) ∧
    (∀ (source : String) (options : CompileOptions) (natives : Registry) (linked : List Slot)
      (supply : Supply) (u : CompiledUnit) (i : Ref) (fuel : Nat) (e : RuntimeError)
      (name : String),
      (DynScript.compile source options natives linked supply).result = .ok u → u.ok →
      i < m.interpreters.size → (m.run rules fuel i u.program).1 = .error (.runtime e) →
      e.fault ≠ .undefinedLabel name) ∧
    ∀ (f : Value) (arguments : List Value) (fuel : Nat) (e : RuntimeError) (name : String),
      (m.invoke rules fuel f arguments).1 = .error (.runtime e) → e.fault ≠ .undefinedLabel name := by
  refine ⟨fun target v hm => ?_, ?_, ?_⟩
  · have hc := (fits_of_arises hh h).control
    rw [hm] at hc
    exact caught_of_owned hm (hc trivial)
  · intro source options natives linked supply u i fuel e name hu hok hi he
    exact (fault_of_finish hh (h.run hu i hi (fun _ => hok) False.elim) he).2 trivial name
  · intro f arguments fuel e name he
    exact (fault_of_finish hh (h.invoke f arguments) he).2 trivial name

/-- In `{ { goto out; } } label out;` the jump passes two blocks and is caught by the unit. -/
theorem jump_lands_goto : ∃ (m : Machine) (target : Label) (v : Value),
    m.control = .jump target v ∧ m.stack.length = 4 ∧ m.Caught {} target := by
  let start := Machine.initial .standard {} {} defaultLimit true
  let c := DynScript.compile "{ { goto out; } } label out;" {} .standard [] {}
  have computed : (match c.result with
      | .ok u =>
        let m := (step {})^[3] (start.atRest.startRun 0 u.program)
        u.ok && m.stack.length = 4 && (match m.control with | .jump .. => true | _ => false)
      | .error _ => false) = true := by decide +kernel
  cases hu : c.result with
  | error e => simp [hu] at computed
  | ok u =>
    simp only [hu, Bool.and_eq_true, decide_eq_true_eq] at computed
    obtain ⟨⟨hok, hlength⟩, hjump⟩ := computed
    split at hjump
    · rename_i target v hm
      have arises : Arises {} ⟨False, True⟩ _ _ :=
        .run (.initial .standard {} {} defaultLimit true) hu 0 Nat.one_pos (fun _ => hok) False.elim
      exact ⟨_, target, v, hm, hlength,
        (jump_lands Host.tame_none arises.step.step.step).1 target v hm⟩
    · cases hjump

/-- **Variables are bound.**  A unit binds each slot in one place and uses it below that place only,
linked names apart.  Where only units linked to names of the units run before on the same interpreter
are run, no state and neither a run nor a call complains of a variable. -/
theorem variable_bound (hh : rules.host.Tame) :
    (∀ (source : String) (options : CompileOptions) (natives : Registry) (linked : List Slot)
      (supply : Supply) (u : CompiledUnit),
      (DynScript.compile source options natives linked supply).result = .ok u →
      (u.program.body.binders.map (·.id)).Nodup ∧ u.program.body.Bound linked) ∧
    ∀ (m : Machine) (x : Ref → List Slot), Arises rules ⟨True, False⟩ m x →
      (∀ e name, m.control = .raise e → e.fault ≠ .unbound name) ∧
      (∀ (source : String) (options : CompileOptions) (natives : Registry) (linked : List Slot)
        (supply : Supply) (u : CompiledUnit) (i : Ref) (fuel : Nat) (e : RuntimeError)
        (name : String),
        (DynScript.compile source options natives linked supply).result = .ok u → linked ⊆ x i →
        i < m.interpreters.size → (m.run rules fuel i u.program).1 = .error (.runtime e) →
        e.fault ≠ .unbound name) ∧
      ∀ (f : Value) (arguments : List Value) (fuel : Nat) (e : RuntimeError) (name : String),
        (m.invoke rules fuel f arguments).1 = .error (.runtime e) → e.fault ≠ .unbound name := by
  refine ⟨?_, fun m x h => ⟨fun e name hm => ?_, ?_, ?_⟩⟩
  · intro source options natives linked supply u hu
    have hc := scoped_of_compile hu
    exact ⟨hc.fresh.1, hc.bound⟩
  · have hc := (fits_of_arises hh h).control
    rw [hm] at hc
    exact hc.1 trivial name
  · intro source options natives linked supply u i fuel e name hu hl hi he
    exact (fault_of_finish hh (h.run hu i hi False.elim fun _ => hl) he).1 trivial name
  · intro f arguments fuel e name he
    exact (fault_of_finish hh (h.invoke f arguments) he).1 trivial name

/-- A closure that is called after the block of its variable is done. -/
theorem variable_bound_closure : ∃ u : CompiledUnit,
    (DynScript.compile "var f; { var a = 1; f = fun () { return a; }; } print f();" {} .standard []
      {}).result = .ok u ∧
    (u.program.body.binders.map (·.id)).Nodup ∧ u.program.body.Bound [] ∧
    ∀ fuel e name,
      ((initial .standard {} {} defaultLimit true).run {} fuel 0 u.program).1 =
        .error (.runtime e) → e.fault ≠ .unbound name := by
  have compiled : (match (DynScript.compile
      "var f; { var a = 1; f = fun () { return a; }; } print f();" {} .standard [] {}).result with
      | .ok u => u.ok
      | .error _ => false) = true := by decide +kernel
  have bound := @variable_bound {} Host.tame_none
  split at compiled
  · rename_i u hu
    obtain ⟨nodup, closed⟩ := bound.1 _ _ _ _ _ u hu
    refine ⟨u, hu, nodup, closed, fun fuel e name he => ?_⟩
    exact (bound.2 _ _ (.initial .standard {} {} defaultLimit true)).2.1 _ _ _ _ _ u 0 fuel e name hu
      (nil_subset _) Nat.one_pos he
  · cases compiled

end Machine

end DynScript

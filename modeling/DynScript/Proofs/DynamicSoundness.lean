import DynScript.Proofs.Demands
import Mathlib.Data.Nat.Find

/-!
# Dynamic expressions give boxed values

An application compiles units on a machine, runs them on its interpreters and resets these, in any order
and as often as it likes; units may be linked to the names that earlier ones have exported.

Main declarations: `History`, `Machine.disciplined_of_move`.
-/

namespace DynScript

open List Machine

namespace Machine

variable {host : Host} {k : Roll} {m m' : Machine} {U U' : List CompiledUnit}

/-! ### What an application does -/

/-- One thing that an application does to a machine with the compiled units `U`: a step, compiling a
unit, starting to run one, resetting or making an interpreter, or changing the registry and the
world. -/
inductive Move (host : Host) (m : Machine) (U : List CompiledUnit) :
    Machine → List CompiledUnit → Prop where
  | step : Move host m U (m.step host) U
  | compile (source : String) (options : CompileOptions) {linked}
    (hl : ∀ s ∈ linked, ∃ u ∈ U, s ∈ u.exported) :
    Move host m U (m.compile source options linked).2
      ((m.compile source options linked).1.toOption.toList ++ U)
  | run {u : CompiledUnit} (hu : u ∈ U) (i : Ref) :
    Move host m U (m.atRest.startRun i u.program) U
  | reset (i : Ref) : Move host m U (m.reset i) U
  | interpreter (limit : Int) (relinks : Bool) :
    Move host m U (m.newInterpreter limit relinks).2 U
  | outside {registry} {world} (h : Foreign registry world) :
    Move host m U { m with registry := registry, world := world } U

/-- The code of the units is proper, and its slots are on the roll. -/
def Enrolled (k : Roll) (U : List CompiledUnit) : Prop :=
  ∀ u ∈ U, u.program.body.Proper k.Lists ∧ u.exported = u.program.body.slots ∧
    ∀ s ∈ u.program.body.binders, k.Lists s

/-- A machine in order that meets all demands, on which units have been compiled. -/
structure Disciplined (k : Roll) (U : List CompiledUnit) (m : Machine) : Prop where
  orderly : m.Orderly U
  units : Enrolled k U
  ready : ∃ b, m.Ready [] false k b ∧ m.control.Suits k.Lists b

lemma Enrolled.mono {k'} (hk : k.Le k') (h : Enrolled k U) : Enrolled k' U :=
  fun u hu => ⟨(h u hu).1.mono fun _ => .mono hk, (h u hu).2.1, fun s hs => ((h u hu).2.2 s hs).mono hk⟩

lemma Enrolled.lists_exported (h : Enrolled k U) {linked : List Slot}
    (hl : ∀ s ∈ linked, ∃ u ∈ U, s ∈ u.exported) : ∀ s ∈ linked, k.Lists s := by
  intro s hs
  obtain ⟨u, hu, he⟩ := hl s hs
  rw [(h u hu).2.1] at he
  exact (h u hu).1.slots s he

lemma disciplined_of_meets (ho : m.Orderly U) (hu : Enrolled k U) (h : m.Meets [] false k) :
    ∃ k', k.Le k' ∧ m.Disciplined k' U := by
  obtain ⟨k', b, hk, ready, suits⟩ := h
  exact ⟨k', hk, ho, hu.mono hk, b, ready, suits⟩

lemma Disciplined.meets (h : m.Disciplined k U) : m.Meets [] false k := by
  obtain ⟨b, ready, suits⟩ := h.ready
  exact ⟨k, b, .refl k, ready, suits⟩

lemma disciplined_initial {registry world} (h : Foreign registry world) (supply) (limit : Int)
    (relinks : Bool) :
    (initial registry supply world limit relinks).Disciplined ⟨0, fun _ => true⟩ [] := by
  refine ⟨orderly_initial h supply limit relinks, nofun, false, ⟨⟨Nat.zero_le _, ?_, ?_⟩, .foot id⟩,
    nofun⟩
  · rintro c ⟨r, hr⟩
    rw [Heap.function, Array.getD_eq_getD_getElem?] at hr
    cases hr
  · exact forall_cells_push (F := #[]) (fun r => by simp [frameAt]) (forall_mem_nil _)

/-- **Whatever an application does, the machine stays disciplined,** with perhaps more slots on the
roll. -/
theorem disciplined_of_move (hh : host.Orderly) (hm : Move host m U m' U')
    (h : m.Disciplined k U) : ∃ k', k.Le k' ∧ m'.Disciplined k' U' := by
  obtain ⟨b, ready, suits⟩ := h.ready
  cases hm with
  | step =>
    by_cases rest : m.stack = [] ∧ TakesUp m.control
    · rw [step_of_nil rest.1 rest.2]
      exact ⟨k, .refl k, h⟩
    · exact disciplined_of_meets (h.orderly.step hh) h.units (meets_step hh h.orderly h.meets rest)
  | @compile source options linked hl =>
    have listed := h.units.lists_exported hl
    have orderly := h.orderly.compile source options linked
    have grows := (supply_le_compile source options m.registry linked m.supply).1
    cases hr : (DynScript.compile source options m.registry linked m.supply).result with
    | error e =>
      have none : (m.compile source options linked).1.toOption.toList = [] := by
        rw [Machine.compile, hr]
        rfl
      rw [none, nil_append] at orderly ⊢
      exact ⟨k, .refl k, orderly, h.units, b,
        ⟨{ ready.tidy with limit := le_trans ready.tidy.limit grows }, ready.stack⟩, suits⟩
    | ok u =>
      have one : (m.compile source options linked).1.toOption.toList = [u] := by
        rw [Machine.compile, hr]
        rfl
      rw [one, singleton_append] at orderly ⊢
      obtain ⟨k', hk, limit, proper, binders⟩ := exists_roll ready.tidy.limit listed hr
      have told : (m.compile source options linked).2.Ready [] false k b :=
        ⟨{ ready.tidy with limit := le_trans ready.tidy.limit grows }, ready.stack⟩
      refine ⟨k', hk, orderly, forall_mem_cons.2 ⟨⟨proper, ?_, binders⟩, h.units.mono hk⟩, b,
        told.mono hk limit, suits.mono fun _ => .mono hk⟩
      exact (scoped_of_compile hr).exported
  | run hu i =>
    have rest : m.atRest.Ready [] false k false := ⟨{ ready.tidy with }, .foot id⟩
    exact disciplined_of_meets (h.orderly.startRun hu i) h.units
      (rest.startRun (h.units _ hu).1 i)
  | reset i =>
    have blank := ready.newFrame (f := {}) (forall_mem_nil _)
    exact ⟨k, .refl k, h.orderly.reset i, h.units, b, blank.outside _ _ _ _, suits⟩
  | interpreter limit relinks =>
    exact ⟨k, .refl k, h.orderly.newInterpreter limit relinks, h.units, b,
      ready.newInterpreter limit relinks, suits⟩
  | outside hf =>
    exact ⟨k, .refl k, h.orderly.outside hf, h.units, b, ⟨{ ready.tidy with }, ready.stack⟩, suits⟩

/-! ### Evaluating -/

/-- The states that a machine goes through from `m` on until it takes up what is pending in `foot`. -/
inductive Within (rules : Rules) (foot : List Pending) (m : Machine) : Machine → Prop where
  | refl : Within rules foot m m
  | step {n : Machine} (h : Within rules foot m n) (hn : ¬ (n.stack = foot ∧ TakesUp n.control)) :
    Within rules foot m (n.step rules)

/-- A machine is about to evaluate an expression, and the first time that it takes up what is pending
now, it has got a value. -/
def Evaluates (rules : Rules) (m : Machine) (e : Expr) (v : Value) : Prop :=
  ∃ frame n, m.control = .eval e frame ∧ Within rules m.stack m n ∧ n.stack = m.stack ∧
    n.control = .give v

lemma Within.meets {foot} {d : Bool} (hh : host.Orderly) {n}
    (run : Within host foot m n) (ho : m.Orderly U) (h : m.Meets foot d k) :
    n.Orderly U ∧ n.Meets foot d k := by
  induction run with
  | refl => exact ⟨ho, h⟩
  | step _ hn ih => exact ⟨ih.1.step hh, meets_step hh ih.1 ih.2 hn⟩

/-- **Dynamic expressions give boxed values.**  What waits for the value of the expression demands
that it is boxed, and all steps up to there meet this demand. -/
theorem Disciplined.isBoxed (hh : host.Orderly) (h : m.Disciplined k U) {e v}
    (he : m.Evaluates host e v) (hd : e.isDynamic) : v.isBoxed := by
  obtain ⟨frame, n, hc, run, hs, hn⟩ := he
  obtain ⟨b, ready, suits⟩ := h.ready
  rw [hc] at suits
  have start : m.Meets m.stack true k :=
    ⟨k, true, .refl k, ⟨ready.tidy, .foot id⟩, by rw [hc]; exact ⟨suits.1, fun _ => hd⟩⟩
  obtain ⟨k', b', -, ready', suits'⟩ := (run.meets hh h.orderly start).2
  rw [hn] at suits'
  have stack := ready'.stack
  rw [hs] at stack
  exact suits' (stack.of_foot rfl)

lemma stack_step_read {rules slot place frame} (hc : m.control = .eval (.read slot place) frame) :
    (m.step rules).stack = m.stack := by
  simp only [step, hc, stepEval, withCell]
  split <;> rfl

end Machine

/-! ### All code on a machine -/

/-- The code that is about to be evaluated or executed is proper. -/
def Control.Proper (P : Slot → Prop) : Control → Prop
  | .eval e _ => e.Proper P
  | .exec s _ => s.Proper P
  | _ => True

variable {P : Slot → Prop}

lemma Control.Suits.proper {b : Bool} {c : Control} (h : c.Suits P b) : c.Proper P := by
  cases c with
  | eval => exact h.1
  | exec => exact h.1
  | _ => trivial

lemma Awaits.proper {stack} {d b : Bool} (h : Awaits P [] d stack b) :
    ∀ p ∈ stack, p.Proper P := by
  induction h with
  | foot => exact forall_mem_nil _
  | part hp _ _ ih => exact forall_mem_cons.2 ⟨hp, ih⟩

/-- All code on a machine is proper: what it is about to do, what is pending, and what its functions
do. -/
structure Machine.Carries (P : Slot → Prop) (m : Machine) : Prop where
  control : m.control.Proper P
  stack : ∀ p ∈ m.stack, p.Proper P
  functions : ∀ c, m.heap.Holds c → c.code.expr.Proper P

lemma Machine.Disciplined.carries {k} {U} {m : Machine} (h : m.Disciplined k U) :
    m.Carries k.Lists := by
  obtain ⟨b, ready, suits⟩ := h.ready
  exact ⟨suits.proper, ready.stack.proper, ready.tidy.functions⟩

lemma Machine.Carries.mono {Q : Slot → Prop} (h : ∀ s, P s → Q s) {m : Machine}
    (hm : m.Carries P) : m.Carries Q where
  control := by
    have proper := hm.control
    cases hc : m.control <;> rw [hc] at proper
    · exact Expr.Proper.mono h proper
    · exact Stmt.Proper.mono h proper
    all_goals trivial
  stack p hp := (hm.stack p hp).mono h
  functions c hc := (hm.functions c hc).mono h

/-! ### Histories -/

/-- What an application does to a machine, from a fresh one on: the states it is in, and the units
compiled by then. -/
structure History (host : Host) where
  state : Nat → Machine
  units : Nat → List CompiledUnit
  start : ∃ registry supply world limit relinks, Machine.Foreign registry world ∧
    state 0 = .initial registry supply world limit relinks ∧ units 0 = []
  move : ∀ n, Machine.Move host (state n) (units n) (state (n + 1)) (units (n + 1))

namespace History

variable {host : Host}

lemma exists_rolls (hh : host.Orderly) (H : History host) : ∃ roll : Nat → Roll,
    (∀ n, (roll n).Le (roll (n + 1))) ∧ ∀ n, (H.state n).Disciplined (roll n) (H.units n) := by
  choose! next le disciplined using fun n k =>
    disciplined_of_move (k := k) hh (H.move n)
  obtain ⟨registry, supply, world, limit, relinks, foreign, first, none⟩ := H.start
  let roll : Nat → Roll := Nat.rec ⟨0, fun _ => true⟩ next
  have all (n : Nat) : (H.state n).Disciplined (roll n) (H.units n) := by
    induction n with
    | zero =>
      rw [first, none]
      exact disciplined_initial foreign supply limit relinks
    | succ n ih => exact disciplined n _ ih
  exact ⟨roll, fun n => le n _ (all n), all⟩

lemma exists_constant {roll : Nat → Roll} (le : ∀ n, (roll n).Le (roll (n + 1))) :
    ∃ constant : Nat → Bool, ∀ n id, id < (roll n).limit → (roll n).constant id = constant id := by
  have later {i j : Nat} (h : i ≤ j) : (roll i).Le (roll j) := by
    induction h with
    | refl => exact .refl _
    | step _ ih => exact ih.trans (le _)
  classical
  refine ⟨fun id => if h : ∃ n, id < (roll n).limit then (roll (Nat.find h)).constant id else true,
    fun n id hid => ?_⟩
  have known : ∃ n, id < (roll n).limit := ⟨n, hid⟩
  dsimp only
  rw [dif_pos known]
  exact (later (Nat.find_min' known hid)).constant id (Nat.find_spec known)

/-- **The dynamic flag is sound.**  In every compiled unit, dynamic expressions stand wherever a boxed
value is needed, and boxes are put around other expressions only; the subject of a switch is no
exception, because it is kept in a variable.  Throughout a history, numbers of
slots are those of constants or of variables once and for all, every variable holds a boxed value, and
what a dynamic expression evaluates to is boxed. -/
theorem dynamic_sound (hh : host.Orderly) :
    (∀ (source : String) (options : CompileOptions) (natives : Registry) (linked : List Slot)
      (supply : Supply) (u : CompiledUnit),
      (compile source options natives linked supply).result = .ok u →
        u.program.body.Proper anySlot) ∧
    (∀ (g : Grammar) (keyword : Token) (c : ParseContext) (s t : ParseState) (a : Stmt),
      (g.switchStatement keyword).run c s = .ok a t →
        ∃ slot e rest place, a = .block (.mk (.declare slot e place :: rest) [slot] place) ∧
          slot.constant = false ∧ e.isDynamic) ∧
    ∀ H : History host,
      (∃ constant : Nat → Bool, ∀ n,
        (∀ u ∈ H.units n, ∀ s ∈ u.program.body.binders, s.constant = constant s.id) ∧
        (H.state n).Carries (fun s => s.constant = constant s.id) ∧
        ∀ r, ∀ c ∈ (frameAt (H.state n).frames r).cells, constant c.1 = false → c.2.isBoxed) ∧
      ∀ n e v, (H.state n).Evaluates host e v → e.isDynamic → v.isBoxed := by
  refine ⟨fun _ _ _ _ _ _ hu => proper_of_compile hu,
    fun _ _ _ _ _ _ h => Grammar.ok_of_switchStatement h, fun H => ?_⟩
  obtain ⟨roll, le, disciplined⟩ := H.exists_rolls hh
  obtain ⟨constant, same⟩ := exists_constant le
  have known {n : Nat} {s : Slot} (hs : (roll n).Lists s) : s.constant = constant s.id :=
    hs.constant.trans (same n s.id hs.limit)
  refine ⟨⟨constant, fun n => ⟨fun u hu s hs => known (((disciplined n).units u hu).2.2 s hs),
    (disciplined n).carries.mono fun _ => known, fun r c hc hv => ?_⟩⟩, fun n e v he hd =>
      (disciplined n).isBoxed hh he hd⟩
  obtain ⟨b, ready, -⟩ := (disciplined n).ready
  have admits := ready.tidy.cells r c hc
  exact admits.boxed ((same n c.1 admits.limit).trans hv)

/-- An application that compiles a text on a fresh machine and runs it to its end. -/
def running (host : Host) {source : String} {u : CompiledUnit}
    (hu : (compile source {} .standard [] {}).result = .ok u) : History host where
  state
    | 0 => .initial .standard {} {} defaultLimit true
    | 1 => ((initial .standard {} {} defaultLimit true).compile source {} []).2
    | n + 2 => (step host)^[n] (((initial .standard {} {} defaultLimit
      true).compile source {} []).2.atRest.startRun mainInterpreter u.program)
  units
    | 0 => []
    | _ + 1 => [u]
  start := ⟨_, _, _, _, _, ⟨Registry.allowed_standard, fun _ hv => by cases hv⟩, rfl, rfl⟩
  move
    | 0 => by
      have compiled : Machine.Move host (.initial .standard {} {} defaultLimit true) [] _ _ :=
        .compile source {} (forall_mem_nil _)
      have one : ((initial .standard {} {} defaultLimit true).compile source {}
          []).1.toOption.toList = [u] := by
        rw [Machine.compile]
        exact congrArg (fun r : Except ParseFailure CompiledUnit => r.toOption.toList) hu
      rwa [one] at compiled
    | 1 => .run mem_cons_self _
    | n + 2 => by
      change Machine.Move host ((step host)^[n] _) [u]
        ((step host)^[n + 1] _) [u]
      rw [Function.iterate_succ_apply']
      exact .step

/-- A variable that was declared with a constant is read; the constant itself is kept raw. -/
theorem dynamic_sound_read : ∃ (H : History .none) (n : Nat) (e : Expr) (v : Value),
    (H.state n).Evaluates {} e v ∧ e.isDynamic ∧ v.isBoxed := by
  have computed : (match (compile "let a = \"x\"; var b = a; b + a;" {} .standard [] {}).result with
      | .ok u =>
        let m := (step {})^[12] (((initial .standard {} {} defaultLimit true).compile
          "let a = \"x\"; var b = a; b + a;" {} []).2.atRest.startRun 0 u.program)
        match m.control, (m.step {}).control with
        | .eval (.read slot _) _, .give _ => !slot.constant
        | _, _ => false
      | .error _ => false) = true := by decide +kernel
  split at computed
  · rename_i u hu
    dsimp only at computed
    split at computed
    · rename_i slot place frame v before after
      have evaluates : Machine.Evaluates {} _ (.read slot place) v :=
        ⟨frame, _, before, .step .refl fun h => by rw [before] at h; exact h.2,
          stack_step_read before, after⟩
      have dynamic : (Expr.read slot place).isDynamic = true := computed
      exact ⟨running .none hu, 14, _, v, evaluates, dynamic,
        ((dynamic_sound Host.orderly_none).2.2 (running .none hu)).2 14 _ v evaluates dynamic⟩
    · cases computed
  · cases computed

end History

end DynScript

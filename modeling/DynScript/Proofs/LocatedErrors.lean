import DynScript.Proofs.RunTrails

/-!
# Errors have places

Many parts of a machine raise errors without a place: operations on values, functions of the library and
of the host, the check of the call depth.

* `Machine.RaisesAt` is the moment of an error, `History.Compiles` the texts that code can come from;
* `Machine.stepsWithin_cases` says how a run on the stack of a host differs from one with room for all;
* `History.error_located`: the error that comes out of a run has the place of the innermost node, unless
  the host had no room for the run, and then it need not have one (`History.deep_error_unplaced`).
-/

namespace DynScript

open Machine

lemma Host.unplaced_none : Host.none.Unplaced := by
  intro symbol bound arguments h e he
  cases he
  rfl

namespace Machine

variable {rules : Rules} {host : Host} {U : List CompiledUnit} {m : Machine}

/-! ### The moment of an error -/

/-- An error is raised in the step `k` of a machine, where none was on its way out. -/
structure RaisesAt (rules : Rules) (m : Machine) (k : Nat) (e : RuntimeError) : Prop where
  calm : ∀ e', ((step rules)^[k] m).control ≠ .raise e'
  raised : ((step rules)^[k + 1] m).control = .raise e

variable {e : RuntimeError} {x : Ref → List Slot}

lemma exists_raisesAt (calm : ∀ e, m.control ≠ .raise e) (j : Nat)
    (he : ((step rules)^[j] m).control = .raise e) :
    ∃ k, k < j ∧ ∃ e₀ l, m.RaisesAt rules k e₀ ∧ e = { e₀ with location := l } ∧
      locate l ((step rules)^[j] m).stack =
        locate e₀.location ((step rules)^[k + 1] m).stack := by
  induction j generalizing e with
  | zero => exact absurd he (calm e)
  | succ j ih =>
    by_cases before : ∃ e', ((step rules)^[j] m).control = .raise e'
    · obtain ⟨e', before⟩ := before
      obtain ⟨k, lt, e₀, l, raises, rfl, same⟩ := ih before
      obtain ⟨l', after, tail, -, -, located⟩ := step_of_raise rules before
      rw [Function.iterate_succ_apply'] at he ⊢
      cases he.symm.trans after
      exact ⟨k, Nat.lt_succ_of_lt lt, e₀, l', raises, rfl, by rw [tail, located, same]⟩
    · exact ⟨j, Nat.lt_succ_self j, e, e.location, ⟨not_exists.1 before, he⟩, rfl, rfl⟩

lemma iterate_of_raise (rules) (hc : m.control = .raise e) (j : Nat) :
    ∃ l, ((step rules)^[j] m).control = .raise { e with location := l } ∧
      locate l ((step rules)^[j] m).stack = locate e.location m.stack := by
  induction j with
  | zero => exact ⟨e.location, hc, rfl⟩
  | succ j ih =>
    obtain ⟨l, raised, same⟩ := ih
    obtain ⟨l', after, tail, -, -, located⟩ := step_of_raise rules raised
    rw [Function.iterate_succ_apply']
    exact ⟨l', after, by rw [tail, located, same]⟩

/-! ### The stack of the host -/

/-- What is pending beneath the innermost run of a stack. -/
def beneath : List Pending → List Pending
  | [] => []
  | .run _ :: stack => stack
  | _ :: stack => beneath stack

lemma overflow_eq (m : Machine) (stack) :
    (m.overflow stack).control = .raise { fault := .hostStack, location := none } ∧
      (m.overflow stack).stack = beneath stack := by
  induction stack generalizing m with
  | nil => exact ⟨rfl, rfl⟩
  | cons p stack ih =>
    cases p with
    | run caller => exact ⟨rfl, rfl⟩
    | call => exact ih _
    | _ => exact ih m

/-- **A run on the stack of a host** takes the steps of one with room for everything, as long as there is
room. -/
theorem stepsWithin_cases (rules) (host) (fuel : Nat) (m : Machine) :
    m.stepsWithin rules host fuel = m.steps rules fuel ∨
      ∃ k rest, host.holds ((step rules)^[k + 1] m) = false ∧ m.stepsWithin rules host fuel =
        (((step rules)^[k] m).overflow ((step rules)^[k] m).stack).steps rules rest := by
  induction fuel generalizing m with
  | zero => exact .inl rfl
  | succ fuel ih =>
    rw [stepsWithin, steps]
    by_cases ended : m.outcome?.isSome
    · exact .inl (by rw [if_pos ended, if_pos ended])
    · rw [if_neg ended, if_neg ended]
      split
      · obtain same | ⟨k, rest, full, runs⟩ := ih (m.step rules)
        · exact .inl same
        · exact .inr ⟨k + 1, rest, full, runs⟩
      · rename_i full
        exact .inr ⟨0, fuel, Bool.eq_false_iff.2 full, rfl⟩

lemma control_startRun_ne (m : Machine) (i p e) : (m.startRun i p).control ≠ .raise e := by
  unfold startRun runStatements
  dsimp only
  split <;> exact Control.noConfusion

lemma Fits.startRun (h : m.Fits ⟨⟨False, True⟩, none⟩ x) {source options natives linked supply} {u}
    (hr : (DynScript.compile source options natives linked supply).result = .ok u) (ok : u.ok) (i) :
    (m.atRest.startRun i u.program).Fits ⟨⟨False, True⟩, none⟩ x := by
  refine fits_startRun h.sound.atRest Charge.lax (fun _ hp => by cases hp) fun _ =>
    (scoped_of_compile hr).lands ?_
  simp_all [CompiledUnit.ok]

lemma control_of_error (h : m.outcome? = some (.error e)) :
    m.control = .raise e ∨ ∃ target v, m.control = .jump target v := by
  unfold outcome? at h
  split at h
  · cases h
  · cases h
    exact .inl ‹_›
  · exact .inr ⟨_, _, ‹_›⟩
  · cases h

lemma raised_of_finish {fuel : Nat} (he : (m.finish rules fuel).1 = .error (.runtime e))
    (calm : ((step rules)^[fuel] m).stack = [] →
      ∀ target v, ((step rules)^[fuel] m).control ≠ .jump target v) :
    ((step rules)^[fuel] m).stack = [] ∧ ((step rules)^[fuel] m).control = .raise e := by
  unfold finish at he
  rw [steps_eq_iterate] at he
  dsimp only at he
  split at he
  · cases he
  · rename_i ended
    cases he
    have rest := stack_of_outcome? ended
    exact ⟨rest, (control_of_error ended).resolve_right fun ⟨target, v, jumps⟩ => calm rest target v jumps⟩
  · cases he

/-- **No error is raised where a run is left:** its value can be converted, and no jump leads out of
it. -/
theorem not_endsRun (ho : m.Orderly U) (hf : m.Fits ⟨⟨False, True⟩, none⟩ x)
    (calm : ∀ e, m.control ≠ .raise e)
    (raised : (m.step rules).control = .raise e) : ¬ m.EndsRun := by
  rintro ⟨takes, caller, S, hs⟩
  have fits := hf.control
  cases hc : m.control with
  | eval | exec | apply =>
    rw [hc] at takes
    exact takes
  | give v =>
    obtain ⟨w, A, h⟩ := ho
    have like := h.control
    rw [hc] at like
    cases like with
    | give hv =>
      obtain ⟨u, u', converts, -⟩ := HeapM.convert_of_held hv
      simp only [step, hc, hs, resume, onHeap_eq, converts] at raised
      cases raised
  | jump target v =>
    rw [hc, hs] at fits
    rcases fits trivial with owns | passes
    · exact owns
    · exact passes.1
  | raise e => exact calm e hc

end Machine

/-! ### Where code comes from -/

/-- A node of a unit that was compiled from a text, at the place of one of its tokens. -/
def Node.Of (x : Node) (source : String) (u : CompiledUnit) : Prop :=
  ∃ options natives linked supply, (compile source options natives linked supply).result = .ok u ∧
    (Node.stmt (.block u.program.body)).Has x ∧ Marked (scan source options.file).tokens x.place

lemma Node.of_compile {source options natives linked supply} {u x}
    (hr : (compile source options natives linked supply).result = .ok u)
    (hx : (Node.stmt (.block u.program.body)).Has x) : x.Of source u :=
  ⟨options, natives, linked, supply, hr, hx, (made_of_compile hr x hx).place⟩

lemma Node.Of.child {x y : Node} {source u} (h : x.Of source u) (hy : y ∈ x.children) :
    y.Of source u := by
  obtain ⟨_, _, _, _, hr, hx, -⟩ := h
  exact of_compile hr (hx.tail hy)

namespace History

variable {host : Host} {n k : Nat}

/-- All units that are run before `n` are free of errors. -/
def Clean (H : History host) (n : Nat) : Prop :=
  ∀ k, k < n → ∀ u ∈ H.units k, ∀ i,
    H.state (k + 1) = (H.state k).atRest.startRun i u.program → u.ok

/-- The texts compiled up to the step `k` of a run from `m` on: by the application, or evaluated by
a script. -/
inductive Compiles (H : History host) (n : Nat) (m : Machine) (k : Nat) (source : String) :
    CompiledUnit → Prop where
  | unit {u} (hu : u ∈ H.units n)
    (hr : ∃ options natives linked supply,
      (compile source options natives linked supply).result = .ok u) : Compiles H n m k source u
  | earlier {u} {j : Nat} (hj : j < n)
    (step : H.state (j + 1) = (H.state j).step host)
    (takes : (H.state j).TakesText host source u) : Compiles H n m k source u
  | text {u} {j : Nat} (hj : j ≤ k)
    (takes : ((step host)^[j] m).TakesText host source u) :
    Compiles H n m k source u

/-- A node is in the code of a text compiled by then. -/
def Knows (H : History host) (n : Nat) (m : Machine) (k : Nat) (x : Node) : Prop :=
  ∃ source u, H.Compiles n m k source u ∧ x.Of source u

lemma hereditary_knows (H : History host) (n : Nat) (m) (k : Nat) :
    Machine.Hereditary (H.Knows n m k) := by
  rintro x y ⟨source, u, hu, hx⟩ hy
  exact ⟨source, u, hu, hx.child hy⟩

/-- **The code on a machine is well scoped** in a history with clean code. -/
theorem fits (hh : host.Tame) (H : History host) (clean : H.Clean n) :
    (H.state n).Fits ⟨⟨False, True⟩, none⟩ fun _ => [] := by
  induction n with
  | zero =>
    obtain ⟨registry, supply, world, limit, relinks, -, first, -⟩ := H.start
    rw [first]
    exact fits_initial registry supply world limit relinks
  | succ n ih =>
    have before : (H.state n).Fits ⟨⟨False, True⟩, none⟩ fun _ => [] :=
      ih fun k hk => clean k (Nat.lt_succ_of_lt hk)
    have ok := clean n (Nat.lt_succ_self n)
    have move := H.move n
    generalize H.state (n + 1) = next, H.units (n + 1) = later at move ok
    cases move with
    | step => exact fits_step hh before
    | compile => exact ⟨before.sound, before.control⟩
    | @run u hu i =>
      obtain ⟨_, _, _, _, _, hr⟩ := H.exists_source n u hu
      exact before.startRun hr (ok u hu i rfl) i
    | reset i =>
      have reset := fits_reset before i
      rwa [Function.update_eq_self (f := fun _ => []) i] at reset
    | interpreter limit relinks =>
      exact ⟨sound_newInterpreter before.sound limit relinks,
        before.control.grows (.push _ {})⟩
    | outside => exact ⟨before.sound, before.control⟩

variable {u : CompiledUnit}

lemma knows_unit (H : History host) {m} (hu : u ∈ H.units n) :
    H.Knows n m k (.stmt (.block u.program.body)) := by
  obtain ⟨source, options, natives, linked, supply, hr⟩ := H.exists_source n u hu
  exact ⟨source, u, .unit hu ⟨_, _, _, _, hr⟩, Node.of_compile hr .refl⟩

lemma knows_text {H : History host} {m m' : Machine} {source} {u}
    (takes : m'.TakesText host source u) (hu : H.Compiles n m k source u) :
    H.Knows n m k (.stmt (.block u.program.body)) := by
  obtain ⟨-, _, _, _, -, -, hr, -⟩ := takes
  exact ⟨source, u, hu, Node.of_compile hr .refl⟩

lemma tracks_run (hh : host.Orderly) (H : History host) (hu : u ∈ H.units n) (i) {m}
    (hm : m = (H.state n).atRest.startRun i u.program) (k : Nat) :
    ((step host)^[k] m).Tracks (H.Knows n m k)
      (m.trail host k) := by
  have hQ := H.hereditary_knows n m k
  obtain ⟨L, tracks⟩ := H.exists_tracks hh hQ n
    (fun j hj v hv => H.knows_unit (H.units_subset (le_of_lt hj) hv))
    fun j hj step source v takes => knows_text takes (.earlier hj step takes)
  have start : m.Tracks (H.Knows n m k) (m.note []) := by
    have := Machine.Tracks.startRun hQ (H.knows_unit hu) tracks.functions i
    rwa [← hm] at this
  exact start.trail host hQ hh.keeps k fun j hj source v takes =>
    knows_text takes (.text (le_of_lt hj) takes)

lemma orderly_fits_run (hh : host.Orderly) (ht : host.Tame) (H : History host) (clean : H.Clean n)
    (hu : u ∈ H.units n) (ok : u.ok) (i) (k : Nat) :
    ((step host)^[k] ((H.state n).atRest.startRun i u.program)).Orderly
        (H.units n) ∧
      ((step host)^[k] ((H.state n).atRest.startRun i u.program)).Fits
        ⟨⟨False, True⟩, none⟩ fun _ => [] := by
  induction k with
  | zero =>
    obtain ⟨roll, -, disciplined⟩ := H.exists_rolls hh
    obtain ⟨_, _, _, _, _, hr⟩ := H.exists_source n u hu
    exact ⟨(disciplined n).orderly.startRun hu i, (H.fits ht clean).startRun hr ok i⟩
  | succ k ih =>
    rw [Function.iterate_succ_apply']
    exact ⟨ih.1.step hh, fits_step ht ih.2⟩

/-- **Errors that come out of a run are located, if the host has room for it.**  The host may raise errors,
but gives them no place.  Then an error that comes out of a run of a unit without compile errors was
raised in some step of the run and has the place of the innermost node under evaluation there.  That node
is in the code of a unit that was compiled from the text of the unit or an earlier one, or from a text
that a script evaluated, and its place is that of a token of this text.  The exception is a step to a state
that the stack of the host has no room for: then all that the error can get is a place beneath the
innermost run, where a script evaluates a text. -/
theorem error_located (hh : host.Orderly) (ht : host.Tame) (hl : host.Unplaced) (H : History host)
    (clean : H.Clean n) {u : CompiledUnit} (hu : u ∈ H.units n) (ok : u.ok) (i : Ref) (fuel : Nat)
    (stack : Option HostStack) {e : RuntimeError}
    (he : ((H.state n).run host fuel i u.program stack).1 = .error (.runtime e)) :
    ∃ m k, m = (H.state n).atRest.startRun i u.program ∧
      ((∃ e₀ x source v, m.RaisesAt host k e₀ ∧
        (m.trail host k).innermost = some x ∧ e = { e₀ with location := some x.place } ∧
        H.Compiles n m k source v ∧ x.Of source v) ∨
      ∃ s ∈ stack, s.holds ((step host)^[k + 1] m) = false ∧
        e = { fault := .hostStack, location :=
          locate none (beneath ((step host)^[k] m).stack) }) := by
  have states := H.orderly_fits_run hh ht clean hu ok i
  have tracks := H.tracks_run hh hu i rfl
  have calm := control_startRun_ne (H.state n).atRest i u.program
  generalize hm : (H.state n).atRest.startRun i u.program = m at *
  have ends : (m.finish host fuel).1 = .error (.runtime e) ∨ ∃ s ∈ stack, ∃ k rest,
      s.holds ((step host)^[k + 1] m) = false ∧
      ((((step host)^[k] m).overflow
        ((step host)^[k] m).stack).finish host rest).1 =
          .error (.runtime e) := by
    unfold run at he
    rw [hm] at he
    cases stack with
    | none => exact .inl he
    | some s =>
      dsimp only at he
      rcases stepsWithin_cases host s fuel m with same | ⟨k, rest, full, runs⟩
      · exact .inl (by rwa [same] at he)
      · exact .inr ⟨s, rfl, k, rest, full, by rwa [runs] at he⟩
  refine ends.elim (fun he => ?_) fun ⟨s, hs, k, rest, full, he⟩ => ?_
  swap
  · -- The error of the host goes up through what is pending beneath the run.
    obtain ⟨control, stack⟩ := overflow_eq ((step host)^[k] m)
      ((step host)^[k] m).stack
    obtain ⟨l, raised, located⟩ := iterate_of_raise host control rest
    obtain ⟨empty, ended⟩ := raised_of_finish he fun _ _ _ jumps => by cases raised.symm.trans jumps
    rw [empty, stack, locate] at located
    cases raised.symm.trans ended
    exact ⟨m, k, rfl, .inr ⟨s, hs, full, by rw [located]⟩⟩
  -- At its end the machine is at rest with the error, which was raised at some moment `k`.
  obtain ⟨rest, control⟩ := raised_of_finish he fun rest target v jumps => by
    have owned := (states fuel).2.control
    rw [jumps, rest] at owned
    exact owned trivial
  obtain ⟨k, -, e₀, l, raises, rfl, located⟩ := exists_raisesAt calm fuel control
  have raised := raises.raised
  rw [Function.iterate_succ_apply'] at raised located
  have inRun := not_endsRun (states k).1 (states k).2 raises.calm raised
  -- Then the innermost node was to blame, and the error has got its place.
  obtain ⟨x, inner, found⟩ := (tracks k).blames host
    (H.hereditary_knows n m k) hh.keeps hl
    (fun source v takes => knows_text takes (.text (le_refl k) takes)) inRun raises.calm raised
  rw [rest, found, locate] at located
  subst located
  obtain ⟨source, v, hv, hx⟩ := (tracks k).known_of_innermost inner
  exact ⟨m, k, rfl, .inl ⟨e₀, x, source, v, raises, inner, rfl, hv, hx⟩⟩

/-- The error of a run that the host has no room for has no place, although the limit on nested calls is
not reached: here the host allows a thousand activations, and the run asks for 192 more. -/
theorem deep_error_unplaced : ∃ (u : CompiledUnit) (e : RuntimeError),
    (compile "fun f(n) \x7b return !!!!!!!!!!!!!!!!!!!!!!!!!!!!!!!!!!!!!!!!!!!!!!!!!!!!!!!!!!!!f(n + 1); \x7d f(0);"
      {} .standard [] {}).result = .ok u ∧ u.ok ∧
    ((initial .standard {} {} 12 true).run {} 2000 mainInterpreter u.program
      (some (.ofSize 1000))).1 = .error (.runtime e) ∧ e.location = none := by
  have computed : (compile "fun f(n) \x7b return !!!!!!!!!!!!!!!!!!!!!!!!!!!!!!!!!!!!!!!!!!!!!!!!!!!!!!!!!!!!f(n + 1); \x7d f(0);"
      {} .standard [] {}).result.toOption.any (fun u => u.ok &&
      (raised? ((initial .standard {} {} 12 true).run {} 2000 mainInterpreter u.program
        (some (.ofSize 1000))).1).any fun e => e.location = none) = true := by
    decide +kernel
  obtain ⟨u, hu, computed⟩ := (Option.any_eq_true _ _).1 computed
  rw [Bool.and_eq_true] at computed
  obtain ⟨e, he, place⟩ := (Option.any_eq_true _ _).1 computed.2
  exact ⟨u, e, eq_ok_of_toOption hu, computed.1, eq_error_of_raised? he, of_decide_eq_true place⟩

/-- The place of an error is in the text that was evaluated, here by a function. -/
theorem error_located_text : ∃ (H : History .none) (u : CompiledUnit) (e : RuntimeError),
    ((H.state 1).run {} 100 mainInterpreter u.program).1 = .error (.runtime e) ∧
      e.location = some ⟨"<eval>", 2, 5⟩ ∧
      ∃ m k source v, ∃ x : Node, H.Compiles 1 m k source v ∧ x.Of source v ∧
        x.place = ⟨"<eval>", 2, 5⟩ := by
  have computed : (compile "fun f() \x7b return $Eval(\"var a = 1;\\nnull(a);\"); \x7d f();" {}
      .standard [] {}).result.toOption.any (fun u => u.ok &&
        (raised? (((initial .standard {} {} defaultLimit true).compile
          "fun f() \x7b return $Eval(\"var a = 1;\\nnull(a);\"); \x7d f();" {} []).2.run {} 100
            mainInterpreter u.program).1).any fun e =>
              e.location = some ⟨"<eval>", 2, 5⟩) = true := by
    decide +kernel
  obtain ⟨u, hu, computed⟩ := (Option.any_eq_true _ _).1 computed
  rw [Bool.and_eq_true] at computed
  obtain ⟨ok, failed⟩ := computed
  obtain ⟨e, he, place⟩ := (Option.any_eq_true _ _).1 failed
  have located := of_decide_eq_true place
  have he := eq_error_of_raised? he
  let H : History .none := running .none (eq_ok_of_toOption hu)
  -- Nothing has been run before.
  have clean : H.Clean 1 := by
    intro k hk u hu
    obtain rfl : k = 0 := Nat.lt_one_iff.1 hk
    cases hu
  obtain ⟨m, k, -, ⟨e₀, x, source, v, -, -, rfl, compiles, hx⟩ | ⟨_, hs, -⟩⟩ :=
    error_located Host.orderly_none Host.tame_none Host.unplaced_none H clean
      (List.mem_cons_self) ok mainInterpreter 100 none he
  · exact ⟨H, u, _, he, located, m, k, source, v, x, compiles, hx, Option.some.inj located⟩
  · cases hs

end History

end DynScript

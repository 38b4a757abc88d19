import DynScript.Proofs.DynamicSoundness
import DynScript.Proofs.Trails

/-!
# The trails of runs

What a step does, seen from the innermost node of the trail, tells what the trail is after it.  So there
is a trail at each moment of a run, and throughout a history.

Main declarations: `Machine.Tracks.proceeds`, `Machine.Tracks.blames`.
-/

namespace DynScript

open List

/-! ### Steps -/

namespace Watch.Continues

variable {w : Watch} {S T : List Pending} {c : Control} {m : Machine}

/-- The nodes that are under evaluation around what is pending. -/
def Around (w : Watch) (S : List Pending) : Prop :=
  ∀ x ∈ w.trail, w.known x.1 ∧ x.2 ≤ S.length

lemma tracks_taken {x} (nodes : Around w m.stack) (stack : Tracked w.known w.trail m.stack)
    (hx : w.known x) (hn : m.note w.trail = (x, m.stack.length) :: w.trail)
    (hc : m.control.Serves ((x, m.stack.length) :: w.trail) m.stack)
    (functions : ∀ f, m.heap.Holds f → w.known (.stmt (.block f.code.body))) :
    m.Tracks w.known (m.note w.trail) := by
  rw [hn]
  exact ⟨forall_mem_cons.2 ⟨⟨hx, le_rfl⟩, nodes⟩, stack.push x, hc, functions⟩

lemma tracks_left (nodes : Around w m.stack) (stack : Tracked w.known w.trail m.stack)
    (hc : Machine.TakesUp m.control)
    (functions : ∀ f, m.heap.Holds f → w.known (.stmt (.block f.code.body))) :
    m.Tracks w.known (m.note w.trail) := by
  have hn : m.note w.trail = w.trail.under m.stack.length := by
    unfold Machine.note
    split <;> first | rfl | simp_all [Machine.TakesUp]
  rw [hn]
  refine ⟨fun x hx => ?_, stack.leave, ?_, functions⟩
  · obtain ⟨hx, lt⟩ := Trail.mem_under.1 hx
    exact ⟨(nodes x hx).1, le_of_lt lt⟩
  · have inside : ∀ x ∈ w.trail.under m.stack.length, x.2 < m.stack.length :=
      fun x hx => (Trail.mem_under.1 hx).2
    cases hm : m.control <;> first | exact inside | simp_all [Machine.TakesUp]

lemma tracks (h : w.Continues S c T) (nodes : Around w S) (stack : Tracked w.known w.trail S)
    (hc : m.control = c) (hs : m.stack = T)
    (functions : ∀ f, m.heap.Holds f → w.known (.stmt (.block f.code.body))) :
    m.Tracks w.known (m.note w.trail) := by
  induction h with
  | give | jump | raise =>
    subst hs
    exact tracks_left nodes stack (by rw [hc]; trivial) functions
  | eval he | exec he =>
    subst hs
    exact tracks_taken nodes stack he (by simp only [Machine.note, hc]) (by rw [hc]; rfl) functions
  | apply hb =>
    have same : m.note w.trail = w.trail := by simp only [Machine.note, hc]
    subst hs
    rw [same]
    exact ⟨nodes, stack, by rw [hc]; exact hb, functions⟩
  | @pend S _ p _ hp _ ih =>
    -- All nodes of the trail are around the new part.
    have inside : w.trail.under (S.length + 1) = w.trail :=
      Trail.under_eq_self fun x hx => Nat.lt_succ_of_le (nodes x hx).2
    refine ih (fun x hx => ⟨(nodes x hx).1, Nat.le_succ_of_le (nodes x hx).2⟩) ⟨?_, stack⟩ hc hs
    rw [inside]
    exact hp

lemma blames (h : w.Continues S c T) (strict : w.strict) {e} (hc : c = .raise e) :
    Blames w.trail T e.location := by
  induction h with
  | raise hb =>
    cases hc
    exact hb strict
  | pend _ _ ih => exact ih hc
  | _ => cases hc

end Watch.Continues

namespace Machine

variable {Q : Node → Prop} {m : Machine} {L : Trail} {rules : Rules}

/-- What is pending behind what the machine is about to do. -/
def below (m : Machine) : List Pending :=
  match m.control with
  | .eval .. | .exec .. | .apply .. => m.stack
  | .give _ | .jump .. | .raise _ => m.stack.tail

/-- The machine is about to store the value of a declaration in a variable. -/
def Declares (m : Machine) (c : Cell) : Prop :=
  ∃ v slot frame l S, m.control = .give v ∧ m.stack = .declare slot frame l :: S ∧
    m.cell? slot frame = some c

/-- The variable that the innermost node of the trail assigns to, and the one that the machine is about
to declare. -/
def Writes (m : Machine) (L : Trail) (c : Cell) : Prop :=
  (∃ slot u l, L.innermost = some (.expr (.assignVariable slot u l)) ∧ slot.id = c.id) ∨
    m.Declares c

/-- In its next step the machine begins to run a unit that it compiles from a text. -/
def TakesText (rules : Rules) (m : Machine) (source : String) (u : CompiledUnit) : Prop :=
  (∃ callee arguments place, m.control = .apply callee arguments place) ∧
    m.BeginsText (m.step rules) source u

/-- The machine is about to take up the end of a run. -/
def EndsRun (m : Machine) : Prop :=
  TakesUp m.control ∧ ∃ caller S, m.stack = .run caller :: S

/-- The nodes in a node that has the property `Q` have it too. -/
def Hereditary (Q : Node → Prop) : Prop :=
  ∀ x y, Q x → y ∈ x.children → Q y

/-- What there is when the machine takes a step. -/
def watch (m : Machine) (hQ : Hereditary Q) (strict : Prop) (L : Trail) : Watch where
  known := Q
  hereditary := hQ _ _
  strict := strict
  trail := L
  below := m.below
  frames := m.frames
  declares := m.Declares

namespace Tracks

lemma nodes_below (h : m.Tracks Q L) : ∀ x ∈ L, Q x.1 ∧ x.2 ≤ m.below.length := by
  intro x hx
  have control := h.control
  refine ⟨(h.nodes x hx).1, ?_⟩
  unfold below
  cases hc : m.control with
  | eval | exec | apply => exact (h.nodes x hx).2
  | give | jump | raise =>
    rw [hc] at control
    have lt : x.2 < m.stack.length := control x hx
    rw [length_tail]
    omega

lemma stack_below (h : m.Tracks Q L) : Tracked Q L m.below := by
  have stack := h.stack
  unfold below
  cases hc : m.control with
  | eval | exec | apply => exact stack
  | give | jump | raise =>
    cases hs : m.stack with
    | nil => trivial
    | cons p S =>
      rw [hs] at stack
      exact stack.2

lemma of_top (h : m.Tracks Q L) {p} {S} (hs : m.stack = p :: S) (hb : m.below = S) :
    p.Of Q L.innermost S := by
  -- Nodes with as much pending around them as there is now have been left.
  have inside : L.under (S.length + 1) = L :=
    Trail.under_eq_self fun x hx => Nat.lt_succ_of_le (hb ▸ (h.nodes_below x hx).2)
  have stack := h.stack
  rw [hs] at stack
  have top := stack.1
  rw [inside] at top
  exact top

lemma known_of_innermost (h : m.Tracks Q L) {x} (hx : L.innermost = some x) : Q x := by
  obtain ⟨y, head, rfl⟩ := Option.map_eq_some_iff.1 hx
  exact (h.nodes y (mem_of_head? head)).1

/-- **A step, seen from the innermost node.** -/
theorem proceeds (hQ : Hereditary Q) (strict : Prop) (hk : rules.host.Keeps)
    (hl : strict → rules.host.Unplaced) (h : m.Tracks Q L)
    (hu : ∀ source u, m.TakesText rules source u → Q (.stmt (.block u.program.body)))
    (hr : strict → ¬ m.EndsRun) (waits : ¬ (m.stack = [] ∧ TakesUp m.control))
    (calm : ∀ e, m.control ≠ .raise e) : (m.step rules).Proceeds (m.watch hQ strict L) := by
  have serves := h.control
  have sits {n : Machine} (stack : n.stack = m.below) (heap : n.heap = m.heap)
      (frames : n.frames = m.frames) : n.Sits (m.watch hQ strict L) :=
    ⟨stack, heap ▸ h.functions, frames ▸ .refl _ _⟩
  cases hc : m.control with
  | eval e frame =>
    have taken : m.step rules = m.stepEval rules e frame := by simp only [step, hc]
    have below : m.below = m.stack := by simp only [below, hc]
    rw [hc] at serves
    rw [taken]
    exact (sits below.symm rfl rfl).stepEval (h.known_of_innermost serves) serves frame
  | exec s frame =>
    have taken : m.step rules = m.stepExec s frame := by simp only [step, hc]
    have below : m.below = m.stack := by simp only [below, hc]
    rw [hc] at serves
    rw [taken]
    exact (sits below.symm rfl rfl).stepExec (h.known_of_innermost serves) serves frame
  | apply callee arguments place =>
    have taken : m.step rules = m.apply rules callee arguments place := by simp only [step, hc]
    have below : m.below = m.stack := by simp only [below, hc]
    rw [hc, ← below] at serves
    rw [taken]
    refine (sits below.symm rfl rfl).apply hk hl callee arguments serves fun source u begins => ?_
    exact hu source u ⟨⟨callee, arguments, place, hc⟩, taken.symm ▸ begins⟩
  | give v =>
    cases hs : m.stack with
    | nil => exact absurd ⟨hs, by rw [hc]; trivial⟩ waits
    | cons p S =>
      have taken : m.step rules = ({ m with stack := S } : Machine).resume rules p v := by
        simp only [step, hc, hs]
      have below : m.below = S := by simp only [below, hc, hs, tail_cons]
      have top := h.of_top hs below
      rw [← below] at top
      rw [taken]
      refine (sits (n := { m with stack := S }) below.symm rfl rfl).resume top ?_ ?_ v
      · rintro hs' caller rfl
        exact hr hs' ⟨by rw [hc]; trivial, caller, S, hs⟩
      · rintro slot frame l c rfl found
        exact ⟨v, slot, frame, l, S, hc, hs, found⟩
  | jump target v =>
    cases hs : m.stack with
    | nil => exact absurd ⟨hs, by rw [hc]; trivial⟩ waits
    | cons p S =>
      have taken : m.step rules = ({ m with stack := S } : Machine).jumpThrough p target v := by
        simp only [step, hc, hs]
      have below : m.below = S := by simp only [below, hc, hs, tail_cons]
      have top := h.of_top hs below
      rw [← below] at top
      rw [taken]
      refine (sits (n := { m with stack := S }) below.symm rfl rfl).jumpThrough top ?_ hc
      rintro hs' caller rfl
      exact hr hs' ⟨by rw [hc]; trivial, caller, S, hs⟩
  | raise e => exact absurd hc (calm e)

lemma step_raise (hQ : Hereditary Q) (h : m.Tracks Q L) {e} (hc : m.control = .raise e) :
    (m.step rules).Tracks Q ((m.step rules).note L) := by
  have nodes := h.nodes_below
  have stack := h.stack_below
  have below : m.below = m.stack.tail := by simp only [below, hc]
  obtain ⟨l, control, tail, heap, -, -⟩ := step_of_raise rules hc
  rw [below, ← tail] at nodes stack
  refine Watch.Continues.tracks_left (w := m.watch hQ False L) nodes stack ?_ ?_
  · rw [control]
    trivial
  · rw [heap]
    exact h.functions

/-- **A step keeps the trail.** -/
theorem step (hQ : Hereditary Q) (hk : rules.host.Keeps) (h : m.Tracks Q L)
    (hu : ∀ source u, m.TakesText rules source u → Q (.stmt (.block u.program.body))) :
    (m.step rules).Tracks Q ((m.step rules).note L) := by
  by_cases rest : m.stack = [] ∧ TakesUp m.control
  · rw [step_of_nil rest.1 rest.2]
    exact Watch.Continues.tracks_left (w := m.watch hQ False L) h.nodes h.stack rest.2 h.functions
  · by_cases calm : ∀ e, m.control ≠ .raise e
    · have next := h.proceeds hQ False hk False.elim hu False.elim rest calm
      exact next.control.tracks h.nodes_below h.stack_below rfl rfl next.functions
    · obtain ⟨e, hc⟩ := not_forall_not.1 calm
      exact h.step_raise hQ hc

/-- **The innermost node is to blame for an error that a step raises,** except where a run is left. -/
theorem blames (rules : Rules) (hQ : Hereditary Q) (hk : rules.host.Keeps)
    (hl : rules.host.Unplaced) (h : m.Tracks Q L)
    (hu : ∀ source u, m.TakesText rules source u → Q (.stmt (.block u.program.body)))
    (hr : ¬ m.EndsRun) (calm : ∀ e, m.control ≠ .raise e) {e}
    (raised : (m.step rules).control = .raise e) : Blames L (m.step rules).stack e.location := by
  have waits : ¬ (m.stack = [] ∧ TakesUp m.control) := by
    rintro ⟨hs, hc⟩
    rw [step_of_nil hs hc] at raised
    exact calm e raised
  have next := h.proceeds hQ True hk (fun _ => hl) hu (fun _ => hr) waits calm
  exact next.control.blames trivial raised

/-- **The variables that a step writes:** the one that the innermost node assigns to, and the one that
it declares. -/
theorem untouched (hQ : Hereditary Q) (hk : rules.host.Keeps) (h : m.Tracks Q L)
    (hu : ∀ source u, m.TakesText rules source u → Q (.stmt (.block u.program.body))) :
    Untouched (m.Writes L) m.frames (m.step rules).frames := by
  by_cases rest : m.stack = [] ∧ TakesUp m.control
  · rw [step_of_nil rest.1 rest.2]
    exact .refl _ _
  · by_cases calm : ∀ e, m.control ≠ .raise e
    · exact (h.proceeds hQ False hk False.elim hu False.elim rest calm).frames
    · obtain ⟨e, hc⟩ := not_forall_not.1 calm
      obtain ⟨l, -, -, -, frames, -⟩ := step_of_raise rules hc
      rw [frames]
      exact .refl _ _

lemma trail {Q : Node → Prop} (rules : Rules) (hQ : Hereditary Q) (hk : rules.host.Keeps)
    (h : m.Tracks Q (m.note [])) (k : Nat)
    (texts : ∀ j, j < k → ∀ source u, ((Machine.step rules)^[j] m).TakesText rules source u →
      Q (.stmt (.block u.program.body))) :
    ((Machine.step rules)^[k] m).Tracks Q (m.trail rules k) := by
  induction k with
  | zero => exact h
  | succ k ih =>
    have before := ih fun j hj => texts j (Nat.lt_succ_of_lt hj)
    rw [Machine.trail, Function.iterate_succ_apply']
    exact before.step hQ hk (texts k (Nat.lt_succ_self k))

/-! ### Whatever an application does -/

lemma of_eq {n : Machine} (h : m.Tracks Q L) (stack : n.stack = m.stack)
    (control : n.control = m.control) (heap : n.heap = m.heap) : n.Tracks Q L :=
  ⟨stack ▸ h.nodes, stack ▸ h.stack, stack ▸ control ▸ h.control, heap ▸ h.functions⟩

lemma startRun (hQ : Hereditary Q) {p : Program} (hp : Q (.stmt (.block p.body)))
    (functions : ∀ c, m.heap.Holds c → Q (.stmt (.block c.code.body))) (i) :
    (m.atRest.startRun i p).Tracks Q ((m.atRest.startRun i p).note []) := by
  have starts : (m.atRest.watch hQ False []).Continues m.atRest.stack _ _ :=
    continues_startRun m.atRest i hp
  refine starts.tracks (forall_mem_nil _) trivial rfl rfl ?_
  rw [heap_startRun]
  exact functions

end Tracks

variable {host : Host} {U U' : List CompiledUnit} {m' : Machine}

lemma exists_tracks_of_move (hQ : Hereditary Q) (hk : host.Keeps) (hm : Move host m U m' U')
    (h : m.Tracks Q L) (units : ∀ u ∈ U, Q (.stmt (.block u.program.body)))
    (texts : m' = m.step host → ∀ source u, m.TakesText host source u →
      Q (.stmt (.block u.program.body))) : ∃ L', m'.Tracks Q L' := by
  cases hm with
  | step => exact ⟨_, h.step hQ hk (texts rfl)⟩
  | compile source options hl => exact ⟨L, h.of_eq rfl rfl rfl⟩
  | run hu i => exact ⟨_, .startRun hQ (units _ hu) h.functions i⟩
  | reset i => exact ⟨L, h.of_eq rfl rfl rfl⟩
  | interpreter limit relinks => exact ⟨L, h.of_eq rfl rfl rfl⟩
  | outside hf => exact ⟨L, h.of_eq rfl rfl rfl⟩

lemma Tracks.untouched_of_move (hQ : Hereditary Q) (hk : host.Keeps) (hm : Move host m U m' U')
    (h : m.Tracks Q L)
    (texts : m' = m.step host → ∀ source u, m.TakesText host source u →
      Q (.stmt (.block u.program.body))) :
    Untouched (fun c => m' = m.step host ∧ m.Writes L c) m.frames m'.frames := by
  cases hm with
  | step => exact (h.untouched hQ hk (texts rfl)).mono fun _ hc => ⟨rfl, hc⟩
  | compile source options hl => exact .refl _ _
  | run hu i =>
    rw [frames_startRun]
    exact .extend (.refl _ _) _ _
  | reset i => exact .push (.refl _ _) _
  | interpreter limit relinks => exact .push (.refl _ _) _
  | outside hf => exact .refl _ _

end Machine

/-! ### Histories -/

namespace History

variable {host : Host}

lemma units_subset (H : History host) {k n : Nat} (h : k ≤ n) : H.units k ⊆ H.units n := by
  induction h with
  | refl => exact List.Subset.refl _
  | @step n _ ih =>
    refine List.Subset.trans ih ?_
    have move := H.move n
    generalize H.units (n + 1) = later, H.state (n + 1) = next at move
    cases move with
    | compile => exact subset_append_right _ _
    | _ => exact List.Subset.refl _

lemma exists_source (H : History host) (n : Nat) : ∀ u ∈ H.units n,
    ∃ source options natives linked supply,
      (compile source options natives linked supply).result = .ok u := by
  induction n with
  | zero =>
    obtain ⟨_, _, _, _, _, -, -, none⟩ := H.start
    rw [none]
    exact forall_mem_nil _
  | succ n ih =>
    have move := H.move n
    generalize H.units (n + 1) = later, H.state (n + 1) = next at move
    cases move with
    | @compile source options linked hl =>
      rintro u hu
      rcases mem_append.1 hu with hu | hu
      · cases hr : (DynScript.compile source options (H.state n).registry linked
          (H.state n).supply).result with
        | error e =>
          rw [Machine.compile, hr] at hu
          cases hu
        | ok u =>
          rw [Machine.compile, hr] at hu
          obtain rfl := mem_singleton.1 hu
          exact ⟨_, _, _, _, _, hr⟩
      · exact ih u hu
    | _ => exact ih

lemma exists_tracks (hh : host.Orderly) (H : History host) {Q : Node → Prop}
    (hQ : Machine.Hereditary Q) (n : Nat)
    (units : ∀ k, k < n → ∀ u ∈ H.units k, Q (.stmt (.block u.program.body)))
    (texts : ∀ k, k < n → H.state (k + 1) = (H.state k).step host → ∀ source u,
      (H.state k).TakesText host source u → Q (.stmt (.block u.program.body))) :
    ∃ L, (H.state n).Tracks Q L := by
  induction n with
  | zero =>
    obtain ⟨registry, supply, world, limit, relinks, -, first, -⟩ := H.start
    rw [first]
    refine ⟨[], forall_mem_nil _, trivial, forall_mem_nil _, ?_⟩
    rintro c ⟨r, hr⟩
    rw [Heap.function, Array.getD_eq_getD_getElem?] at hr
    cases hr
  | succ n ih =>
    obtain ⟨L, tracks⟩ := ih (fun k hk => units k (Nat.lt_succ_of_lt hk))
      fun k hk => texts k (Nat.lt_succ_of_lt hk)
    exact Machine.exists_tracks_of_move hQ hh.keeps (H.move n) tracks (units n (Nat.lt_succ_self n))
      (texts n (Nat.lt_succ_self n))

end History

end DynScript

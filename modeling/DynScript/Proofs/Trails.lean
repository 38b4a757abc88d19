import DynScript.Proofs.CodePlaces
import DynScript.Proofs.Endings
import DynScript.Proofs.Safety
import DynScript.Proofs.Skeleton

/-!
# Trails

A machine evaluates nodes within nodes: a node is under evaluation from when the machine takes it up
until it gives a value, or a jump or error leaves it, to what was pending then.

Main declarations: `Machine.Tracks`, `Watch.Continues`.
-/

namespace DynScript

open List

/-! ### Trails -/

/-- The nodes under evaluation, the innermost first, each with the number of parts pending around
it. -/
abbrev Trail := List (Node × Nat)

namespace Trail

/-- The nodes around which fewer than `n` parts are pending. -/
def under (L : Trail) (n : Nat) : Trail :=
  L.filter fun x => x.2 < n

/-- The innermost node under evaluation. -/
def innermost (L : Trail) : Option Node :=
  L.head?.map Prod.fst

variable {L : Trail} {k n : Nat}

lemma under_under (h : k ≤ n) : (L.under n).under k = L.under k := by
  unfold under
  rw [filter_filter]
  refine filter_congr fun x _ => ?_
  rw [← Bool.decide_and, decide_eq_decide]
  omega

lemma under_cons (h : k ≤ n) (x) : under ((x, n) :: L) k = L.under k := by
  unfold under
  rw [filter_cons_of_neg]
  simpa using h

lemma under_eq_self (h : ∀ x ∈ L, x.2 < n) : L.under n = L :=
  filter_eq_self.2 fun x hx => decide_eq_true (h x hx)

lemma mem_under {x} : x ∈ L.under n ↔ x ∈ L ∧ x.2 < n := by
  simp [under]

end Trail

namespace Machine

/-- The trail when the machine is about to do what its control says, from the trail `L` before: a
node it takes up is the innermost, those done are left. -/
def note (m : Machine) (L : Trail) : Trail :=
  match m.control with
  | .eval e _ => (.expr e, m.stack.length) :: L
  | .exec s _ => (.stmt s, m.stack.length) :: L
  | .apply .. => L
  | .give _ | .jump .. | .raise _ => L.under m.stack.length

/-- The trail at each moment of a run. -/
def trail (rules : Rules) (m : Machine) : Nat → Trail
  | 0 => m.note []
  | n + 1 => ((step rules)^[n + 1] m).note (trail rules m n)

end Machine

/-- An error with the given place gets that of the innermost node on its way out. -/
def Blames (L : Trail) (S : List Pending) (place : Option Location) : Prop :=
  ∃ x, L.innermost = some x ∧ locate place S = some x.place

/-! ### Pending parts -/

namespace Pending

/-- The nodes that a pending part may still evaluate. -/
def nodes : Pending → List Node
  | .arrayItem _ rest _ _ | .callee rest _ _ | .argument _ _ rest _ _ => rest.map .expr
  | .recordField _ _ rest _ _ => rest.map fun f => .expr f.2
  | .binaryLeft _ e _ _ | .logicalLeft _ e _ | .indexContainer e _ _ | .fieldContainer e _ _ =>
    [.expr e]
  | .ternary a b _ => [.expr a, .expr b]
  | .assignIndexContainer e u _ _ | .assignFieldContainer e u _ _ => .expr e :: u.nodes
  | .assignIndex _ u _ _ | .assignField _ u _ _ => u.nodes
  | .block b rest _ => (rest ++ b.statements).map .stmt
  | .branch a b _ => .stmt a :: b.toList.map .stmt
  | .loopTest c a s _ _ _ | .loopBody c a s _ _ _ | .loopStep c a s _ _ _ =>
    .expr c :: .stmt a :: s.toList.map .expr
  | _ => []

/-- What a pending part is to the innermost node, with `S` pending below.  Where it can raise an
error, it knows the place of the node or leads to it. -/
def Serves (x : Option Node) (S : List Pending) : Pending → Prop
  | .storeVariable c _ l => ∃ slot u, x = some (.expr (.assignVariable slot u l)) ∧ slot.id = c.id
  | .declare slot _ l => ∃ e, x = some (.stmt (.declare slot e l))
  | .box l | .arrayItem _ _ _ l | .recordField _ _ _ _ l | .binaryLeft _ _ _ l | .binaryRight _ _ l
  | .unary _ l | .assignIndexContainer _ _ _ l | .assignIndex _ _ _ l | .storeIndex _ _ _ l
  | .assignFieldContainer _ _ _ l | .assignField _ _ _ l | .storeField _ _ _ l | .callee _ _ l
  | .argument _ _ _ _ l | .indexContainer _ _ l | .index _ l | .fieldContainer _ _ l | .field _ l
  | .print l => ∃ y, x = some y ∧ y.place = l
  | .call _ _ _ q | .site q => ∃ y, x = some y ∧ locate q S = some y.place
  | _ => True

/-- A pending part serves the innermost node around it, and its code has the property `Q`. -/
structure Of (Q : Node → Prop) (x : Option Node) (S : List Pending) (p : Pending) : Prop where
  nodes : ∀ y ∈ p.nodes, Q y
  serves : p.Serves x S

end Pending

/-- All pending parts serve the innermost nodes around them. -/
def Tracked (Q : Node → Prop) (L : Trail) : List Pending → Prop
  | [] => True
  | p :: S => p.Of Q (L.under (S.length + 1)).innermost S ∧ Tracked Q L S

section

variable {Q : Node → Prop} {L : Trail} {S : List Pending}

lemma Tracked.congr {L' : Trail} (h : Tracked Q L S)
    (same : ∀ k ≤ S.length, L'.under k = L.under k) : Tracked Q L' S := by
  induction S with
  | nil => trivial
  | cons p S ih =>
    refine ⟨?_, ih h.2 fun k hk => same k (Nat.le_succ_of_le hk)⟩
    rw [same (S.length + 1) (le_rfl)]
    exact h.1

lemma Tracked.push (h : Tracked Q L S) (x) : Tracked Q ((x, S.length) :: L) S :=
  h.congr fun _ hk => Trail.under_cons hk x

lemma Tracked.leave (h : Tracked Q L S) : Tracked Q (L.under S.length) S :=
  h.congr fun _ hk => Trail.under_under hk

end

/-! ### What goes together -/

/-- What a control is to the trail, with `S` pending. -/
def Control.Serves (L : Trail) (S : List Pending) : Control → Prop
  | .eval e _ => L.innermost = some (.expr e)
  | .exec s _ => L.innermost = some (.stmt s)
  | .apply _ _ place => Blames L S place
  | .give _ | .jump .. | .raise _ => ∀ x ∈ L, x.2 < S.length

namespace Machine

/-- The machine, its code and its trail go together: all nodes of the trail and all code have the
property `Q`, and what is pending serves the trail. -/
structure Tracks (Q : Node → Prop) (m : Machine) (L : Trail) : Prop where
  nodes : ∀ x ∈ L, Q x.1 ∧ x.2 ≤ m.stack.length
  stack : Tracked Q L m.stack
  control : m.control.Serves L m.stack
  functions : ∀ c, m.heap.Holds c → Q (.stmt (.block c.code.body))

end Machine

/-! ### Variables -/

/-- All variables but those of `W` are as they were. -/
def Untouched (W : Cell → Prop) (F G : Array Frame) : Prop :=
  ∀ r id v, ¬ W ⟨r, id⟩ → (frameAt F r).get? id = some v → (frameAt G r).get? id = some v

namespace Untouched

variable {W : Cell → Prop} {F G H : Array Frame}

lemma refl (W : Cell → Prop) (F) : Untouched W F F :=
  fun _ _ _ _ hv => hv

section

variable (h : Untouched W F G)
include h

lemma trans (k : Untouched W G H) : Untouched W F H :=
  fun r id v hw hv => k r id v hw (h r id v hw hv)

lemma mono {W' : Cell → Prop} (hw : ∀ c, W c → W' c) : Untouched W' F G :=
  fun r id v hn hv => h r id v (fun hc => hn (hw _ hc)) hv

lemma push (f) : Untouched W F (G.push f) := by
  refine h.trans fun r id v _ hv => ?_
  rw [Grows.frameAt_push]
  split
  -- There was no variable where the new frame is.
  · subst_vars
    rw [frameAt_of_le (le_rfl)] at hv
    cases hv
  · exact hv

lemma modify (i) {g : Frame → Frame}
    (hg : ∀ f id v, ¬ W ⟨i, id⟩ → Frame.get? f id = some v → (g f).get? id = some v) :
    Untouched W F (G.modify i g) := by
  refine h.trans fun r id v hw hv => ?_
  have lt : r < G.size := by
    by_contra ge
    rw [frameAt_of_le (Nat.le_of_not_lt ge)] at hv
    cases hv
  rw [Grows.frameAt_modify _ _ _ _ lt]
  split
  · subst_vars
    exact hg _ id v hw hv
  · exact hv

lemma extend (i slots) : Untouched W F (G.modify i fun f => f.extend slots) := by
  refine h.modify i fun f id v _ hv => ?_
  rw [Frame.get?_extend, hv]
  rfl

lemma store {c} (hc : W c) (v) : Untouched W F (G.modify c.frame fun f => f.set c.id v) := by
  refine h.modify c.frame fun f id u hw hu => ?_
  rw [Frame.get?_set, if_neg]
  · exact hu
  · rintro rfl
    exact hw hc

end

end Untouched

/-! ### One step, seen from the innermost node -/

/-- What there is when a step is taken: the known code, the trail, what is pending below, the
frames, and the variable being declared.  Whether places of errors matter is said by `strict`. -/
structure Watch where
  known : Node → Prop
  hereditary : ∀ {x y : Node}, known x → y ∈ x.children → known y
  strict : Prop
  trail : Trail
  below : List Pending
  frames : Array Frame
  declares : Cell → Prop

namespace Watch

/-- The variable that the innermost node assigns to, and the one that it declares. -/
def Writes (w : Watch) (c : Cell) : Prop :=
  (∃ slot u l, w.trail.innermost = some (.expr (.assignVariable slot u l)) ∧ slot.id = c.id) ∨
    w.declares c

/-- The innermost node is at a place. -/
def At (w : Watch) (l : Location) : Prop :=
  ∃ x, w.trail.innermost = some x ∧ x.place = l

lemma At.blames {w : Watch} {l} (h : w.At l) : Blames w.trail w.below (some l) := by
  obtain ⟨x, inner, place⟩ := h
  exact ⟨x, inner, by rw [locate_some, place]⟩

/-- What a step does next: it gives a value, jumps, raises an error that the innermost node is to
blame for, works on a known node, or calls a function; further parts that serve this node may be
pending. -/
inductive Continues (w : Watch) : List Pending → Control → List Pending → Prop where
  | give (S : List Pending) (v : Value) : Continues w S (.give v) S
  | jump (S : List Pending) (target : Label) (v : Value) : Continues w S (.jump target v) S
  | raise {S} {e : RuntimeError} (h : w.strict → Blames w.trail S e.location) :
    Continues w S (.raise e) S
  | eval {S} {e} (h : w.known (.expr e)) (frame : Ref) :
    Continues w S (.eval e frame) S
  | exec {S} {s} (h : w.known (.stmt s)) (frame : Ref) :
    Continues w S (.exec s frame) S
  | apply {S} {place} (h : Blames w.trail S place)
    (callee : Callee) (arguments : List Value) : Continues w S (.apply callee arguments place) S
  | pend {S T} {p : Pending} {c}
    (hp : p.Of w.known w.trail.innermost S) (h : Continues w (p :: S) c T) : Continues w S c T

end Watch

namespace Machine

variable {w : Watch} {m n : Machine} {rules : Rules}

/-- A machine at work for the innermost node. -/
structure Sits (w : Watch) (m : Machine) : Prop where
  stack : m.stack = w.below
  functions : ∀ c, m.heap.Holds c → w.known (.stmt (.block c.code.body))
  frames : Untouched w.Writes w.frames m.frames

/-- A machine that goes on after the step. -/
structure Proceeds (w : Watch) (m : Machine) : Prop where
  functions : ∀ c, m.heap.Holds c → w.known (.stmt (.block c.code.body))
  frames : Untouched w.Writes w.frames m.frames
  control : w.Continues w.below m.control m.stack

namespace Sits

section

variable (h : m.Sits w)
include h

lemma go {c} (hc : w.Continues w.below c w.below) : (m.go c).Proceeds w :=
  ⟨h.functions, h.frames, by rw [← h.stack] at hc; rw [← h.stack]; exact hc⟩

lemma give (v) : (m.give v).Proceeds w :=
  h.go (.give _ v)

lemma raise (f) {place} (hp : Blames w.trail w.below place) : (m.raise f place).Proceeds w :=
  h.go (.raise fun _ => hp)

lemma eval {e} {p : Pending} (he : w.known (.expr e)) (frame)
    (hp : p.Of w.known w.trail.innermost w.below) : (m.eval e frame p).Proceeds w := by
  refine ⟨h.functions, h.frames, .pend hp ?_⟩
  rw [← h.stack]
  exact .eval he frame

lemma exec {s} {p : Pending} (hs : w.known (.stmt s)) (frame)
    (hp : p.Of w.known w.trail.innermost w.below) : (m.exec s frame p).Proceeds w := by
  refine ⟨h.functions, h.frames, .pend hp ?_⟩
  rw [← h.stack]
  exact .exec hs frame

end

lemma heap (h : m.Sits w) {k} (hk : m.heap.Keeps k) : ({ m with heap := k } : Machine).Sits w :=
  ⟨h.stack, fun c hc => h.functions c (hk c hc), h.frames⟩

section

variable (h : m.Sits w)
include h

lemma look (f : Heap → Except Fault Value) {l} (hl : w.At l) : (m.look f l).Proceeds w := by
  unfold Machine.look
  split
  · exact h.give _
  · exact h.raise _ hl.blames

variable {place : Option Location}

lemma onHeap {α : Type} {f : HeapM α} (hf : f.Tame) (hp : Blames w.trail w.below place)
    {next : Machine → α → Machine}
    (hn : ∀ a k, f m.heap = .ok a k → ({ m with heap := k } : Machine).Sits w →
      (next { m with heap := k } a).Proceeds w) : (m.onHeap f place next).Proceeds w := by
  rw [onHeap_eq]
  obtain ⟨hk, -⟩ := hf m.heap
  split
  · rename_i a k hr
    rw [hr] at hk
    exact hn a k hr (h.heap hk)
  · rename_i e k hr
    rw [hr] at hk
    exact (h.heap hk).raise e hp

lemma convert (v : Value) (hp : Blames w.trail w.below place) :
    (m.onHeap v.convert place fun m v => m.give v).Proceeds w :=
  h.onHeap v.tame_convert hp fun v _ _ hk => hk.give v

lemma make {α : Type} {f : Heap → α × Heap} (hf : ∀ k : Heap, k.Keeps (f k).2)
    {next : Machine → α → Machine}
    (hn : ∀ a k, ({ m with heap := k } : Machine).Sits w → (next { m with heap := k } a).Proceeds w) :
    (m.onHeap (HeapM.make f) none next).Proceeds w := by
  rw [onHeap_eq]
  exact hn _ _ (h.heap (hf m.heap))

lemma giveArray (items) : (m.giveArray items).Proceeds w :=
  h.make (fun _ => .of_functions_eq rfl) fun _ _ hk => hk.give _

lemma withText (v) (hp : Blames w.trail w.below place) {next : Machine → String → Machine}
    (hn : ∀ s, (next m s).Proceeds w) : (m.withText v place next).Proceeds w := by
  unfold Machine.withText
  split
  · exact hn _
  · exact h.raise _ hp

lemma of_eq (stack : n.stack = m.stack) (heap : n.heap = m.heap)
    (frames : n.frames = m.frames) : n.Sits w :=
  ⟨stack.trans h.stack, heap ▸ h.functions, frames ▸ h.frames⟩

lemma warn (x) : (m.warn x).Sits w :=
  warn_induct x (h.of_eq rfl rfl rfl) fun _ _ hn => hn.of_eq rfl rfl rfl

lemma warnGive (x v) : ((m.warn x).give v).Proceeds w :=
  (h.warn x).give v

end

end Sits

/-! ### Blocks and runs -/

variable {b : Block} {rest : List Stmt}

lemma of_block {Q : Node → Prop} (hb : ∀ s ∈ rest ++ b.statements, Q (.stmt s)) (frame x S) :
    (Pending.block b rest frame).Of Q x S :=
  ⟨forall_mem_map.2 hb, trivial⟩

lemma continues_runStatements (m : Machine) (frame)
    (hb : ∀ s ∈ rest ++ b.statements, w.known (.stmt s)) :
    w.Continues m.stack (m.runStatements b rest frame).control
      (m.runStatements b rest frame).stack := by
  cases rest with
  | nil => exact .give _ _
  | cons s rest =>
    obtain ⟨hs, hb⟩ := forall_mem_cons.1 hb
    exact .pend (of_block hb frame _ _) (.exec hs frame)

lemma Sits.runStatements (h : m.Sits w) (frame)
    (hb : ∀ s ∈ rest ++ b.statements, w.known (.stmt s)) :
    (m.runStatements b rest frame).Proceeds w := by
  have control := continues_runStatements m frame hb
  rw [h.stack] at control
  cases rest <;> exact ⟨h.functions, h.frames, control⟩

lemma known_statements (hb : w.known (.stmt (.block b))) :
    ∀ s ∈ b.statements, w.known (.stmt s) :=
  fun _ hs => w.hereditary hb (mem_map_of_mem hs)

lemma continues_startRun (m : Machine) (i) {p : Program} (hp : w.known (.stmt (.block p.body))) :
    w.Continues m.stack (m.startRun i p).control (m.startRun i p).stack := by
  have body := known_statements hp
  refine .pend (p := .run m.current) ⟨forall_mem_nil _, trivial⟩ ?_
  exact continues_runStatements { m with
    frames := m.frames.modify (m.interpreter i).globals fun f => f.extend p.body.slots
    collectors := i :: m.collectors
    stack := .run m.current :: m.stack
    current := i } _ (forall_mem_append.2 ⟨body, body⟩)

/-- The machine `n` begins to run the unit `u`, compiled from a text that a script evaluates on the
machine `m`. -/
def BeginsText (m n : Machine) (source : String) (u : CompiledUnit) : Prop :=
  ∃ heap code place, n = ({ m with heap := heap } : Machine).evaluateText code place ∧
    code.string? = some source ∧
    (DynScript.compile source evalOptions m.registry [] m.supply).result = .ok u ∧ u.ok

namespace Sits

variable {place : Option Location}

lemma evaluateText (h : m.Sits w) (code) (hp : Blames w.trail w.below place)
    (hu : ∀ source u, m.BeginsText (m.evaluateText code place) source u →
      w.known (.stmt (.block u.program.body))) : (m.evaluateText code place).Proceeds w := by
  have begins (source : String) (u : CompiledUnit) (hs : code.string? = some source)
      (hr : (DynScript.compile source evalOptions m.registry [] m.supply).result = .ok u)
      (hk : u.ok) : m.BeginsText (m.evaluateText code place) source u :=
    ⟨m.heap, code, place, rfl, hs, hr, hk⟩
  unfold Machine.evaluateText at begins hu ⊢
  split
  · exact h.warnGive _ _
  · rename_i source hs
    have told (supply : Supply) (log : List LogEntry) :
        ({ m with supply := supply, world := m.world.send log } : Machine).Sits w :=
      h.of_eq rfl rfl rfl
    dsimp only
    split
    · exact (told _ _).warnGive _ _
    · rename_i u hr
      split
      · rename_i hk
        have body := hu source u (begins source u hs hr hk)
        have site : (Pending.site place).Of w.known w.trail.innermost w.below :=
          ⟨forall_mem_nil _, hp⟩
        refine ⟨?_, ?_, .pend site ?_⟩
        · rw [heap_startRun]
          exact h.functions
        · rw [frames_startRun]
          exact (h.frames.push {}).extend _ _
        · rw [← h.stack]
          exact continues_startRun (({ m with supply := _, world := _, stack := .site place :: m.stack } :
            Machine).newInterpreter defaultLimit true).2 _ body
      · exact (told _ _).warnGive _ _

lemma concludes {arguments} {n} (hc : Concludes arguments place m n) (h : m.Sits w)
    (hp : Blames w.trail w.below place) : n.Proceeds w := by
  induction hc with
  | datum m => exact h.give _
  | array m => exact h.giveArray _
  | input m => exact h.convert _ hp
  | raise m => exact h.raise _ hp
  | warn x _ ih => exact ih (h.warn x)
  | world _ _ _ ih => exact ih (h.of_eq rfl rfl rfl)

lemma callBuiltin (h : m.Sits w) (b arguments) (hp : Blames w.trail w.below place)
    (hu : ∀ source u, m.BeginsText (m.callBuiltin b arguments place) source u →
      w.known (.stmt (.block u.program.body))) : (m.callBuiltin b arguments place).Proceeds w := by
  by_cases hb : b = .evaluate
  · subst hb
    exact h.evaluateText _ hp hu
  · exact concludes (concludes_callBuiltin m hb arguments place) h hp

/-! ### Calls -/

lemma enter (h : m.Sits w) {c : Closure} (hc : w.known (.stmt (.block c.code.body)))
    (self arguments) (hp : Blames w.trail w.below place) :
    (m.enter c self arguments place).Proceeds w := by
  unfold Machine.enter
  dsimp only
  split
  · exact h.raise _ hp
  · have call : (Pending.call c.code.exit c.owner m.current place).Of w.known w.trail.innermost
        w.below := ⟨forall_mem_nil _, hp⟩
    refine ⟨h.functions, h.frames.push _, .pend call ?_⟩
    rw [← h.stack]
    exact .exec hc _

end Sits

end Machine

/-- The host gives no places to its errors. -/
def Host.Unplaced (host : Host) : Prop :=
  ∀ symbol bound arguments h e, (host.call symbol bound arguments h).1 = .error e →
    e.location = Option.none

namespace Machine

variable {w : Watch} {m n : Machine} {rules : Rules}

namespace Sits

variable {place : Option Location} {l : Location}

lemma callHost (hk : rules.host.Keeps) (hl : w.strict → rules.host.Unplaced) (h : m.Sits w)
    (symbol bound arguments) (hp : Blames w.trail w.below place) :
    (m.callHost rules symbol bound arguments place).Proceeds w := by
  have keeps := hk symbol bound arguments m.heap
  have unplaced := fun strict e => hl strict symbol bound arguments m.heap e
  unfold Machine.callHost
  cases hr : rules.host.call symbol bound arguments m.heap with
  | mk answer k =>
    rw [hr] at keeps unplaced
    have sits := h.heap keeps
    dsimp only
    cases answer with
    | value v => exact sits.convert v hp
    | error e =>
      refine sits.go (.raise fun strict => ?_)
      have none := unplaced strict e rfl
      rw [RuntimeError.withLocation_eq, none]
      exact hp
    | invoke f arguments =>
      -- The function is called without a place; that of the host's own call is pending.
      have site : (Pending.site place).Of w.known w.trail.innermost w.below :=
        ⟨forall_mem_nil _, hp⟩
      obtain ⟨x, inner, found⟩ := hp
      refine ⟨sits.functions, sits.frames, .pend site ?_⟩
      rw [← h.stack]
      refine .apply ⟨x, inner, ?_⟩ _ _
      rw [h.stack]
      exact found

lemma call (hk : rules.host.Keeps) (hl : w.strict → rules.host.Unplaced) (h : m.Sits w) {c}
    (hc : ∀ f, c = .closure f → w.known (.stmt (.block f.code.body))) (self arguments)
    (hp : Blames w.trail w.below place)
    (hu : ∀ source u, m.BeginsText (m.call rules c self arguments place) source u →
      w.known (.stmt (.block u.program.body))) :
    (m.call rules c self arguments place).Proceeds w := by
  unfold Machine.call at hu ⊢
  split
  · exact h.raise _ hp
  · rename_i few
    rw [if_neg few] at hu
    refine h.onHeap (.mapM Value.tame_convert _) hp fun values k hm sits => ?_
    rw [onHeap_eq, hm] at hu
    cases c with
    | closure f => exact sits.enter (hc f rfl) self _ hp
    | native f =>
      dsimp only at hu ⊢
      split at hu
      · exact sits.callBuiltin _ _ hp hu
      · exact sits.callHost hk hl _ _ _ hp

lemma apply (hk : rules.host.Keeps) (hl : w.strict → rules.host.Unplaced) (h : m.Sits w)
    (callee arguments) (hp : Blames w.trail w.below place)
    (hu : ∀ source u, m.BeginsText (m.apply rules callee arguments place) source u →
      w.known (.stmt (.block u.program.body))) :
    (m.apply rules callee arguments place).Proceeds w := by
  unfold Machine.apply at hu ⊢
  cases callee with
  | native f => exact h.call hk hl (fun f hf => by cases hf) _ _ hp hu
  | value v =>
    dsimp only at hu ⊢
    split at hu
    · exact h.raise _ hp
    · split at hu
      · rename_i r _
        exact h.call hk hl (fun f hf => h.functions f ⟨r, hf⟩) _ _ hp hu
      · exact h.raise _ hp

lemma evalArguments (h : m.Sits w) (callee before) {rest} (hr : ∀ e ∈ rest, w.known (.expr e))
    (frame) (hl : w.At l) : (m.evalArguments callee before rest frame l).Proceeds w := by
  cases rest with
  | nil => exact h.go (.apply hl.blames _ _)
  | cons e rest =>
    obtain ⟨he, hr⟩ := forall_mem_cons.1 hr
    exact h.eval he frame ⟨forall_mem_map.2 hr, hl⟩

/-! ### Assignments -/

lemma withCell (h : m.Sits w) (slot frame) (hl : w.At l) {next : Cell → Machine}
    (hn : ∀ c, m.cell? slot frame = some c → (next c).Proceeds w) :
    (m.withCell slot frame l next).Proceeds w := by
  unfold Machine.withCell
  split
  · exact hn _ ‹_›
  · exact h.raise _ hl.blames

lemma storeVariable (h : m.Sits w) {c} (hc : w.Writes c) (v) (hl : w.At l) :
    (m.storeVariable c v l).Proceeds w :=
  h.onHeap v.tame_convert hl.blames fun v k _ sits =>
    Sits.give (m := ({ m with heap := k } : Machine).store c v)
      ⟨sits.stack, sits.functions, sits.frames.store hc v⟩ v

lemma update (h : m.Sits w) {u : Update} (hu : ∀ y ∈ u.nodes, w.known y) (frame) (hl : w.At l)
    {current : Heap → Except Fault Value} {pending : Option (BinaryOp × Value) → Pending}
    {store : Machine → Value → Machine}
    (hp : ∀ old, (pending old).Of w.known w.trail.innermost w.below)
    (hs : ∀ v, (store m v).Proceeds w) : (m.update u frame l current pending store).Proceeds w := by
  unfold Machine.update
  cases u with
  | set e => exact h.eval (hu _ mem_cons_self) frame (hp none)
  | combine op e =>
    dsimp only
    split
    · exact h.eval (hu _ mem_cons_self) frame (hp _)
    · exact h.raise _ hl.blames
  | step op =>
    dsimp only
    split
    · split
      · exact hs _
      · exact h.raise _ hl.blames
    · exact h.raise _ hl.blames

lemma storeIndex (h : m.Sits w) (container index v) (hl : w.At l) :
    (m.storeIndex container index v l).Proceeds w :=
  h.onHeap (Value.tame_setIndex _ _ _) hl.blames fun v _ _ sits => sits.give v

lemma storeField (h : m.Sits w) (container key v) (hl : w.At l) :
    (m.storeField container key v l).Proceeds w :=
  h.onHeap (Value.tame_setField _ _ _) hl.blames fun v _ _ sits => sits.give v

lemma evalFields (h : m.Sits w) (record) {rest} (hr : ∀ f ∈ rest, w.known (.expr f.2)) (frame)
    (hl : w.At l) : (m.evalFields record rest frame l).Proceeds w := by
  cases rest with
  | nil => exact h.give _
  | cons f rest =>
    obtain ⟨hf, hr⟩ := forall_mem_cons.1 hr
    exact h.eval hf frame ⟨forall_mem_map.2 hr, hl⟩

/-! ### Expressions and statements -/

lemma stepEval (h : m.Sits w) {e} (he : w.known (.expr e))
    (inner : w.trail.innermost = some (.expr e)) (frame) :
    (m.stepEval rules e frame).Proceeds w := by
  have child {y : Node} (hy : y ∈ e.nodes) : w.known y := w.hereditary he hy
  have here : w.At e.place := ⟨_, inner, rfl⟩
  unfold Machine.stepEval
  cases e with
  | literal value l => exact h.give _
  | read slot l => exact h.withCell slot frame here fun c _ => h.give _
  | box e => exact h.eval (child mem_cons_self) frame ⟨forall_mem_nil _, here⟩
  | unbox e => exact h.eval (child mem_cons_self) frame ⟨forall_mem_nil _, trivial⟩
  | array items l =>
    cases items with
    | nil => exact h.giveArray _
    | cons e rest =>
      refine h.eval (child mem_cons_self) frame ⟨fun y hy => ?_, here⟩
      exact child (mem_cons_of_mem _ hy)
  | record fields self l =>
    refine h.make (fun _ => .of_functions_eq rfl) fun record k sits => ?_
    refine Sits.evalFields (m := (Machine.newFrame { m with heap := k } _).2)
      ⟨sits.stack, sits.functions, sits.frames.push _⟩ record (fun f hf => ?_) _ here
    exact child (mem_map_of_mem (f := fun f : String × Expr => Node.expr f.2) hf)
  | function name params body exit self l =>
    dsimp only
    rw [onHeap_eq]
    let closure : Closure := ⟨⟨name, params, body, exit, self⟩, frame, m.current⟩
    refine Sits.give (m := { m with heap := (m.heap.newFunction (.closure closure)).2 })
      ⟨h.stack, fun c hc => ?_, h.frames⟩ _
    -- The new function has the body that stands in the expression.
    obtain ⟨r, hr⟩ := hc
    rw [Heap.function_newFunction] at hr
    split at hr
    · cases hr
      exact child mem_cons_self
    · exact h.functions c ⟨r, hr⟩
  | binary op a b l =>
    exact h.eval (child mem_cons_self) frame
      ⟨forall_mem_singleton.2 (child (mem_cons_of_mem _ mem_cons_self)), here⟩
  | logical op a b l =>
    exact h.eval (child mem_cons_self) frame
      ⟨forall_mem_singleton.2 (child (mem_cons_of_mem _ mem_cons_self)), trivial⟩
  | unary op e l => exact h.eval (child mem_cons_self) frame ⟨forall_mem_nil _, here⟩
  | ternary c a b l =>
    exact h.eval (child mem_cons_self) frame
      ⟨fun y hy => child (mem_cons_of_mem _ hy), trivial⟩
  | assignVariable slot u l =>
    -- The cell of an assignment is found first, and has the number of its slot.
    refine h.withCell slot frame here fun c hc => ?_
    have id : slot.id = c.id := (cellWithin_eq_some hc).1.symm
    refine h.update (fun y hy => child hy) frame here (fun old => ⟨forall_mem_nil _, ?_⟩)
      fun v => h.storeVariable (.inl ⟨slot, u, l, inner, id⟩) v here
    exact ⟨slot, u, inner, id⟩
  | assignIndex a b u l | assignField a b u l =>
    exact h.eval (child mem_cons_self) frame
      ⟨fun y hy => child (mem_cons_of_mem _ hy), here⟩
  | call f items l =>
    exact h.eval (child mem_cons_self) frame
      ⟨fun y hy => child (mem_cons_of_mem _ hy), here⟩
  | native name f items l =>
    exact h.evalArguments _ _ (fun e hm => child (mem_map_of_mem hm)) frame here
  | index a b l | field a b l =>
    exact h.eval (child mem_cons_self) frame
      ⟨forall_mem_singleton.2 (child (mem_cons_of_mem _ mem_cons_self)), here⟩

lemma stepExec (h : m.Sits w) {s} (hs : w.known (.stmt s))
    (inner : w.trail.innermost = some (.stmt s)) (frame) : (m.stepExec s frame).Proceeds w := by
  have child {y : Node} (hy : y ∈ s.nodes) : w.known y := w.hereditary hs hy
  have here : w.At s.place := ⟨_, inner, rfl⟩
  unfold Machine.stepExec
  cases s with
  | expression e l => exact h.go (.eval (child mem_cons_self) frame)
  | declare slot e l =>
    exact h.eval (child mem_cons_self) frame ⟨forall_mem_nil _, e, inner⟩
  | print e l => exact h.eval (child mem_cons_self) frame ⟨forall_mem_nil _, here⟩
  | block b =>
    have body := known_statements hs
    have both := forall_mem_append.2 ⟨body, body⟩
    dsimp only
    split
    · exact h.runStatements frame both
    · exact Sits.runStatements (m := (m.newFrame _).2) ⟨h.stack, h.functions, h.frames.push _⟩ _ both
  | branch c a b l =>
    exact h.eval (child mem_cons_self) frame
      ⟨fun y hy => child (mem_cons_of_mem _ hy), trivial⟩
  | loop c a s exit next l =>
    exact h.eval (child mem_cons_self) frame ⟨fun y hy => child hy, trivial⟩
  | jump target v l =>
    cases v with
    | none => exact h.go (.jump _ _ _)
    | some e => exact h.eval (child mem_cons_self) frame ⟨forall_mem_nil _, trivial⟩
  | label target l => exact h.give _

/-! ### Values and jumps -/

lemma nextRound (h : m.Sits w) {condition body} {step : Option Expr} (exit next frame)
    (hn : ∀ y ∈ Node.expr condition :: .stmt body :: step.toList.map .expr, w.known y) :
    (m.nextRound condition body step exit next frame).Proceeds w := by
  cases step with
  | none => exact h.eval (hn _ mem_cons_self) frame ⟨hn, trivial⟩
  | some e =>
    have he : w.known (.expr e) :=
      hn _ (mem_cons_of_mem _ (mem_cons_of_mem _ mem_cons_self))
    exact h.eval he frame ⟨hn, trivial⟩

lemma leaveCall (h : m.Sits w) (owner caller) : (m.leaveCall owner caller).Sits w :=
  h.of_eq rfl rfl rfl

lemma resume (h : m.Sits w) {p : Pending} (hp : p.Of w.known w.trail.innermost w.below)
    (hr : w.strict → ∀ caller, p ≠ .run caller)
    (hd : ∀ slot frame l c, p = .declare slot frame l → m.cell? slot frame = some c → w.declares c)
    (v) : (m.resume rules p v).Proceeds w := by
  obtain ⟨nodes, serves⟩ := hp
  unfold Machine.resume
  cases p with
  | box l =>
    dsimp only
    split
    · exact h.give v
    · exact h.convert v (Watch.At.blames serves)
  | unbox | discard | site => exact h.give _
  | arrayItem before rest frame l =>
    refine h.onHeap v.tame_convert (Watch.At.blames serves) fun v k _ sits => ?_
    cases rest with
    | nil => exact sits.giveArray _
    | cons e rest =>
      obtain ⟨he, rest⟩ := forall_mem_cons.1 nodes
      exact sits.eval he frame ⟨rest, serves⟩
  | recordField record name rest frame l =>
    refine h.onHeap v.tame_convert (Watch.At.blames serves) fun v k _ sits => ?_
    rw [onHeap_eq]
    refine Sits.evalFields (m := { m with heap := k.setField record name v })
      (sits.heap (.of_functions_eq rfl)) record (fun f hf => nodes _ ?_) frame serves
    exact mem_map_of_mem (f := fun f : String × Expr => Node.expr f.2) hf
  | binaryLeft op right frame l =>
    exact h.eval (nodes _ mem_cons_self) frame ⟨forall_mem_nil _, serves⟩
  | binaryRight | unary | index | field => exact h.look _ serves
  | logicalLeft op right frame =>
    dsimp only
    split
    · exact h.give _
    · exact h.give _
    · exact h.eval (nodes _ mem_cons_self) frame ⟨forall_mem_nil _, trivial⟩
  | logicalRight op left => exact h.give _
  | ternary a b frame =>
    refine h.go (.eval (nodes _ ?_) frame)
    split
    · exact mem_cons_self
    · exact mem_cons_of_mem _ mem_cons_self
  | storeVariable c old l =>
    obtain ⟨slot, u, inner, id⟩ := serves
    have here : w.At l := ⟨_, inner, rfl⟩
    dsimp only
    split
    · exact h.storeVariable (.inl ⟨slot, u, l, inner, id⟩) _ here
    · exact h.raise _ here.blames
  | assignIndexContainer e u frame l | assignFieldContainer e u frame l =>
    obtain ⟨he, hu⟩ := forall_mem_cons.1 nodes
    exact h.eval he frame ⟨hu, serves⟩
  | assignIndex container u frame l =>
    exact h.update nodes frame serves (fun old => ⟨forall_mem_nil _, serves⟩)
      fun new => h.storeIndex container v new serves
  | assignField container u frame l =>
    exact h.update nodes frame serves (fun old => ⟨forall_mem_nil _, serves⟩)
      fun new => h.storeField container v new serves
  | storeIndex container key old l | storeField container key old l =>
    dsimp only
    split
    · first
      | exact h.storeIndex _ _ _ serves
      | exact h.storeField _ _ _ serves
    · exact h.raise _ (Watch.At.blames serves)
  | callee rest frame l | argument callee before rest frame l =>
    exact h.evalArguments _ _ (forall_mem_map.1 nodes) frame serves
  | indexContainer e frame l | fieldContainer e frame l =>
    exact h.eval (nodes _ mem_cons_self) frame ⟨forall_mem_nil _, serves⟩
  | declare slot frame l =>
    obtain ⟨e, inner⟩ := serves
    refine h.withCell slot frame ⟨_, inner, rfl⟩ fun c hc => ?_
    refine Sits.give (m := m.store c v) ⟨h.stack, h.functions, ?_⟩ _
    exact h.frames.store (.inr (hd slot frame l c rfl hc)) v
  | print l =>
    refine h.withText v (Watch.At.blames serves) fun s => ?_
    exact Sits.give (m := m.onWorld _) (h.of_eq rfl rfl rfl) _
  | block b rest frame =>
    cases rest with
    | nil => exact h.give v
    | cons s rest =>
      obtain ⟨hs, rest⟩ := forall_mem_cons.1 nodes
      exact h.exec hs frame (of_block (forall_mem_map.1 rest) frame _ _)
  | branch a b frame =>
    dsimp only
    split
    · exact h.exec (nodes _ mem_cons_self) frame ⟨forall_mem_nil _, trivial⟩
    · cases b with
      | none => exact h.give _
      | some s =>
        exact h.exec (nodes _ (mem_cons_of_mem _ mem_cons_self)) frame
          ⟨forall_mem_nil _, trivial⟩
  | loopTest c a s exit next frame =>
    dsimp only
    split
    · exact h.exec (nodes _ (mem_cons_of_mem _ mem_cons_self)) frame ⟨nodes, trivial⟩
    · exact h.give _
  | loopBody c a s exit next frame => exact h.nextRound exit next frame nodes
  | loopStep c a s exit next frame =>
    exact h.eval (nodes _ mem_cons_self) frame ⟨nodes, trivial⟩
  | jumpValue target => exact h.go (.jump _ _ _)
  | call exit owner caller place => exact (h.leaveCall owner caller).give _
  | run caller =>
    have left : (m.leaveRun caller).Sits w := h.of_eq rfl rfl rfl
    dsimp only
    rw [onHeap_eq]
    obtain ⟨hk, -⟩ := v.tame_convert (m.leaveRun caller).heap
    split
    · rename_i u k hv
      rw [hv] at hk
      exact (left.heap hk).give u
    · rename_i f k hv
      rw [hv] at hk
      -- There is no place to give where a run is left.
      exact (left.heap hk).go (.raise fun strict => absurd rfl (hr strict caller))

lemma jumpThrough (h : m.Sits w) {p : Pending} (hp : p.Of w.known w.trail.innermost w.below)
    (hr : w.strict → ∀ caller, p ≠ .run caller) {target v} (hc : m.control = .jump target v) :
    (m.jumpThrough p target v).Proceeds w := by
  obtain ⟨nodes, serves⟩ := hp
  have passed {n : Machine} (hn : n.Sits w) (control : n.control = m.control) : n.Proceeds w := by
    refine ⟨hn.functions, hn.frames, ?_⟩
    rw [control, hc, hn.stack]
    exact .jump _ _ _
  unfold Machine.jumpThrough
  cases p with
  | block b rest frame =>
    dsimp only
    split
    · rename_i later found
      refine h.runStatements frame (forall_mem_append.2 ⟨fun s hs => ?_, fun s hs => ?_⟩)
      · refine nodes _ (mem_map_of_mem (mem_append_right _ ?_))
        exact Block.subset_of_afterLabel found s hs
      · exact nodes _ (mem_map_of_mem (mem_append_right _ hs))
    · exact passed h rfl
  | loopBody c a s exit next frame =>
    dsimp only
    split
    · exact h.give _
    · split
      · exact h.nextRound exit next frame nodes
      · exact passed h rfl
  | call exit owner caller place =>
    dsimp only
    split
    -- The value that a function returns is converted for its caller.
    · exact (h.leaveCall owner caller).convert v serves
    · exact passed (h.leaveCall owner caller) rfl
  | run caller =>
    have left : (m.leaveRun caller).Sits w := h.of_eq rfl rfl rfl
    exact left.go (.raise fun strict => absurd rfl (hr strict caller))
  | _ => exact passed h rfl

end Sits

end Machine

end DynScript

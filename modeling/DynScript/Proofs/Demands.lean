import DynScript.Proofs.Dynamic
import DynScript.Proofs.Orderly
import Mathlib.Data.List.Nodup

/-!
# Demands for boxed values

What waits for a value may need it boxed: the declaration of a variable does, and so does an operator
whose own outcome has to be boxed and whose other operand is not.

Main declarations: `Machine.Meets`, `Machine.meets_step`.
-/

namespace DynScript

open List

/-! ### Constants and variables -/

/-- What is known of the numbers of slots: those below the limit have been handed out, and some of
them to constants. -/
structure Roll where
  limit : Nat
  constant : Nat → Bool
  deriving Inhabited

namespace Roll

variable {k k' k'' : Roll} {s : Slot} {id : Nat} {v : Value}

/-- A slot is on the roll, as what it was declared as. -/
structure Lists (k : Roll) (s : Slot) : Prop where
  limit : s.id < k.limit
  constant : s.constant = k.constant s.id

/-- A value may stand in a variable with this number: if it is not a constant, the value is boxed. -/
structure Admits (k : Roll) (id : Nat) (v : Value) : Prop where
  limit : id < k.limit
  boxed : k.constant id = false → v.isBoxed

/-- A roll is continued by another one. -/
structure Le (k k' : Roll) : Prop where
  limit : k.limit ≤ k'.limit
  constant : ∀ id < k.limit, k'.constant id = k.constant id

lemma Le.refl (k : Roll) : k.Le k :=
  ⟨le_rfl, fun _ _ => rfl⟩

lemma Le.trans (h : k.Le k') (h' : k'.Le k'') : k.Le k'' where
  limit := le_trans h.limit h'.limit
  constant id hi := (h'.constant id (lt_of_lt_of_le hi h.limit)).trans (h.constant id hi)

lemma Lists.mono (h : k.Le k') (hs : k.Lists s) : k'.Lists s :=
  ⟨lt_of_lt_of_le hs.limit h.limit, hs.constant.trans (h.constant _ hs.limit).symm⟩

lemma Admits.mono (h : k.Le k') (hv : k.Admits id v) : k'.Admits id v :=
  ⟨lt_of_lt_of_le hv.limit h.limit, fun hc => hv.boxed (h.constant id hv.limit ▸ hc)⟩

lemma Lists.admits (hs : k.Lists s) (hv : v.isBoxed) : k.Admits s.id v :=
  ⟨hs.limit, fun _ => hv⟩

/-- The roll with the slots of newly compiled code. -/
def enrol (k : Roll) (limit : Nat) (slots : List Slot) : Roll where
  limit := limit
  constant id := if id < k.limit then k.constant id else slots.any fun s => s.id == id && s.constant

lemma le_enrol {limit : Nat} (h : k.limit ≤ limit) (slots) : k.Le (k.enrol limit slots) :=
  ⟨h, fun _ hi => if_pos hi⟩

lemma lists_enrol {lo limit : Nat} {slots : List Slot} (hk : k.limit ≤ lo)
    (hf : Fresh lo limit (slots.map (·.id))) : ∀ s ∈ slots, (k.enrol limit slots).Lists s := by
  intro s hs
  obtain ⟨distinct, range⟩ := hf
  obtain ⟨low, high⟩ := range s.id (mem_map_of_mem hs)
  refine ⟨high, ?_⟩
  have new : ¬ s.id < k.limit := by omega
  simp only [enrol, if_neg new]
  rw [Bool.eq_iff_iff, any_eq_true]
  constructor
  · exact fun hc => ⟨s, hs, by simp [hc]⟩
  · rintro ⟨t, ht, hc⟩
    simp only [Bool.and_eq_true, beq_iff_eq] at hc
    rw [← inj_on_of_nodup_map distinct ht hs hc.1]
    exact hc.2

end Roll

/-! ### Frames and functions -/

namespace Frame

lemma mem_cells_extend {f : Frame} {slots c} (h : c ∈ (f.extend slots).cells) :
    c ∈ f.cells ∨ ∃ s ∈ slots, c = (s.id, .null) := by
  induction slots generalizing f with
  | nil => exact .inl h
  | cons s slots ih =>
    rw [extend, foldl_cons] at h
    rcases ih h with h | ⟨t, ht, e⟩
    · split at h
      · exact .inl h
      · rcases mem_append.1 h with h | h
        · exact .inl h
        · exact .inr ⟨s, mem_cons_self, mem_singleton.1 h⟩
    · exact .inr ⟨t, mem_cons_of_mem _ ht, e⟩

lemma mem_cells_set {f : Frame} {id : Nat} {v c} (h : c ∈ (f.set id v).cells) :
    c ∈ f.cells ∨ c = (id, v) ∧ ∃ u, (id, u) ∈ f.cells := by
  obtain ⟨x, hx, e⟩ := mem_map.1 h
  split at e
  · rename_i he
    exact .inr ⟨e.symm, x.2, he ▸ hx⟩
  · exact .inl (e ▸ hx)

end Frame

lemma forall_cells_modify {F} {Q : Nat × Value → Prop} (h : ∀ r, ∀ c ∈ (frameAt F r).cells, Q c)
    {i : Nat} {g : Frame → Frame} (hg : ∀ c ∈ (g (frameAt F i)).cells, Q c) :
    ∀ r, ∀ c ∈ (frameAt (F.modify i g) r).cells, Q c := by
  intro r
  by_cases hr : r < F.size
  · rw [Grows.frameAt_modify _ _ _ _ hr]
    split
    · subst_vars
      exact hg
    · exact h r
  · rw [frameAt_of_le (by simpa using hr)]
    exact forall_mem_nil _

lemma forall_cells_push {F} {Q : Nat × Value → Prop} (h : ∀ r, ∀ c ∈ (frameAt F r).cells, Q c)
    {f : Frame} (hf : ∀ c ∈ f.cells, Q c) : ∀ r, ∀ c ∈ (frameAt (F.push f) r).cells, Q c := by
  intro r
  rw [Grows.frameAt_push]
  split
  · exact hf
  · exact h r

namespace Machine

/-- All functions of scripts have proper code, and every variable holds what it may. -/
structure Tidy (k : Roll) (m : Machine) : Prop where
  limit : k.limit ≤ m.supply.slot
  functions : ∀ c, m.heap.Holds c → c.code.expr.Proper k.Lists
  cells : ∀ r, ∀ c ∈ (frameAt m.frames r).cells, k.Admits c.1 c.2

namespace Tidy

variable {k k' : Roll} {m : Machine}

lemma keeps (h : m.Tidy k) {heap} (hk : m.heap.Keeps heap) :
    ({ m with heap := heap } : Machine).Tidy k :=
  { h with functions := fun c hc => h.functions c (hk c hc) }

lemma newFrame (h : m.Tidy k) {f : Frame} (hf : ∀ c ∈ f.cells, k.Admits c.1 c.2) :
    (m.newFrame f).2.Tidy k :=
  { h with cells := forall_cells_push h.cells hf }

lemma store (h : m.Tidy k) {c : Cell} {v : Value} (hv : k.constant c.id = false → v.isBoxed) :
    (m.store c v).Tidy k := by
  refine { h with cells := forall_cells_modify h.cells fun x hx => ?_ }
  rcases Frame.mem_cells_set hx with hx | ⟨rfl, u, hu⟩
  · exact h.cells _ x hx
  · exact ⟨(h.cells _ _ hu).limit, hv⟩

lemma admits_extend (h : m.Tidy k) (r) {slots} (hs : ∀ s ∈ slots, k.Lists s) :
    ∀ c ∈ ((frameAt m.frames r).extend slots).cells, k.Admits c.1 c.2 := by
  intro c hc
  rcases Frame.mem_cells_extend hc with hc | ⟨s, hm, rfl⟩
  · exact h.cells r c hc
  · exact (hs s hm).admits rfl

lemma admits_fresh {parent slots} (hs : ∀ s ∈ slots, k.Lists s) :
    ∀ c ∈ (Frame.fresh parent slots).cells, k.Admits c.1 c.2 := by
  intro c hc
  rcases Frame.mem_cells_extend hc with hc | ⟨s, hm, rfl⟩
  · cases hc
  · exact (hs s hm).admits rfl

lemma isBoxed_load (h : m.Tidy k) {slot} {frame c} (hc : m.cell? slot frame = some c)
    (hk : k.constant slot.id = false) : (m.load c).isBoxed := by
  obtain ⟨e, found⟩ := cellWithin_eq_some hc
  obtain ⟨v, hv⟩ := Option.isSome_iff_exists.1 found
  have member : (slot.id, v) ∈ (frameAt m.frames c.frame).cells := mem_of_lookup hv
  have value : m.load c = v := by
    rw [load, e, ← frameAt, hv]
    rfl
  rw [value]
  exact (h.cells _ _ member).boxed hk

end Tidy

end Machine

/-! ### Demands -/

section

variable (P : Slot → Prop)

/-- The code of a pending part is proper. -/
def Pending.Proper : Pending → Prop
  | .arrayItem _ rest _ _ | .callee rest _ _ | .argument _ _ rest _ _ => ∀ e ∈ rest, e.Proper P
  | .recordField _ _ rest _ _ => ∀ f ∈ rest, f.2.Proper P
  | .binaryLeft _ e _ _ | .logicalLeft _ e _ | .indexContainer e _ _ | .fieldContainer e _ _ =>
    e.Proper P
  | .ternary first second _ => first.Proper P ∧ second.Proper P
  | .assignIndexContainer e u _ _ | .assignFieldContainer e u _ _ => e.Proper P ∧ u.Proper P
  | .assignIndex _ u _ _ | .assignField _ u _ _ => u.Proper P
  | .declare slot _ _ => P slot
  | .block b rest _ => b.Proper P ∧ ∀ s ∈ rest, s.Proper P
  | .branch first second _ => first.Proper P ∧ ∀ s ∈ second, s.Proper P
  | .loopTest c a s _ _ _ | .loopBody c a s _ _ _ | .loopStep c a s _ _ _ =>
    c.Proper P ∧ a.Proper P ∧ ∀ e ∈ s, e.Proper P
  | _ => True

/-- A pending part whose outcome has to be boxed if `b'` holds needs the value that it waits for
boxed at most if `b` holds. -/
def Pending.Turns (b b' : Bool) : Pending → Prop
  | .binaryLeft _ right _ _ => b' → b ∨ right.isDynamic
  | .binaryRight _ left _ => b' → b ∨ left.isBoxed
  | .indexContainer key _ _ => b' → b ∨ key.isDynamic
  | .index container _ => b' → b ∨ container.isBoxed
  | .unary _ _ | .site _ => b' → b
  | .ternary first second _ => b' → first.isDynamic ∧ second.isDynamic
  -- A variable needs a boxed value for its own sake.
  | .declare slot _ _ => (slot.constant = false → b) ∧ b' = false
  -- These give raw values.
  | .unbox | .logicalLeft _ _ _ | .logicalRight _ _ | .print _ | .block _ _ _ | .branch _ _ _
  | .discard | .loopTest _ _ _ _ _ _ | .loopBody _ _ _ _ _ _ | .loopStep _ _ _ _ _ _ => b' = false
  | _ => True

/-- The stack needs a boxed value at most if `b` holds, given that what is pending below, the stack
`foot`, needs one at most if `d` holds. -/
inductive Awaits (foot : List Pending) (d : Bool) : List Pending → Bool → Prop where
  | foot {b : Bool} (h : d → b) : Awaits foot d foot b
  | part {p : Pending} {stack} {b b' : Bool} (hp : p.Proper P) (ht : p.Turns b b')
    (h : Awaits foot d stack b') : Awaits foot d (p :: stack) b

/-- What is about to be done meets the demand for a boxed value. -/
def Control.Suits (b : Bool) : Control → Prop
  | .eval e _ => e.Proper P ∧ (b → e.isDynamic)
  | .exec s _ => s.Proper P ∧ b = false
  | .give v => b → v.isBoxed
  | _ => True

end

section

variable {P Q : Slot → Prop}

lemma Pending.Proper.mono (h : ∀ s, P s → Q s) {p : Pending} (hp : p.Proper P) : p.Proper Q := by
  cases p with
  | arrayItem | callee | argument => exact fun e he => (hp e he).mono h
  | recordField => exact fun f hf => (hp f hf).mono h
  | binaryLeft | logicalLeft | indexContainer | fieldContainer =>
    exact Expr.Proper.mono h hp
  | ternary => exact ⟨hp.1.mono h, hp.2.mono h⟩
  | assignIndexContainer | assignFieldContainer => exact ⟨hp.1.mono h, hp.2.mono h⟩
  | assignIndex | assignField => exact Update.Proper.mono h hp
  | declare => exact h _ hp
  | block => exact ⟨hp.1.mono h, fun s hs => (hp.2 s hs).mono h⟩
  | branch => exact ⟨hp.1.mono h, fun s hs => (hp.2 s hs).mono h⟩
  | loopTest | loopBody | loopStep =>
    exact ⟨hp.1.mono h, hp.2.1.mono h, fun e he => (hp.2.2 e he).mono h⟩
  | _ => trivial

lemma Control.Suits.mono (h : ∀ s, P s → Q s) {b : Bool} {c : Control} (hc : c.Suits P b) :
    c.Suits Q b := by
  cases c with
  | eval => exact ⟨hc.1.mono h, hc.2⟩
  | exec => exact ⟨hc.1.mono h, hc.2⟩
  | give => exact hc
  | _ => trivial

variable {foot stack : List Pending}

lemma Awaits.mono (h : ∀ s, P s → Q s) {d b : Bool} (ha : Awaits P foot d stack b) :
    Awaits Q foot d stack b := by
  induction ha with
  | foot hd => exact .foot hd
  | part hp ht _ ih => exact .part (hp.mono h) ht ih

lemma Awaits.length_le {d b : Bool} (ha : Awaits P foot d stack b) : foot.length ≤ stack.length := by
  induction ha with
  | foot => exact le_rfl
  | part _ _ _ ih => exact Nat.le_succ_of_le ih

lemma Awaits.pop {d b : Bool} (ha : Awaits P foot d stack b) (hf : stack ≠ foot) :
    ∃ p rest b', stack = p :: rest ∧ p.Proper P ∧ p.Turns b b' ∧
      Awaits P foot d rest b' := by
  cases ha with
  | foot => exact absurd rfl hf
  | part hp ht h => exact ⟨_, _, _, rfl, hp, ht, h⟩

lemma Awaits.of_foot {foot} {d b : Bool} (ha : Awaits P foot d foot b) : d → b := by
  cases ha with
  | foot h => exact h
  | part _ _ h => exact absurd h.length_le (by simp)

end

namespace Machine

/-- All is set for going on: the machine is tidy, and its stack needs a boxed value at most if `b`
holds. -/
structure Ready (foot : List Pending) (d : Bool) (k : Roll) (b : Bool) (m : Machine) : Prop where
  tidy : m.Tidy k
  stack : Awaits k.Lists foot d m.stack b

/-- A machine that meets the demands of what is pending, with perhaps more slots on the roll. -/
def Meets (foot : List Pending) (d : Bool) (k : Roll) (m : Machine) : Prop :=
  ∃ k' b, k.Le k' ∧ m.Ready foot d k' b ∧ m.control.Suits k'.Lists b

variable {foot : List Pending} {d b b' : Bool} {k k' : Roll} {m : Machine} {v : Value}
  {host : Host}

lemma Meets.widen (h : k.Le k') (hm : m.Meets foot d k') : m.Meets foot d k := by
  obtain ⟨k'', b, hk, hm⟩ := hm
  exact ⟨k'', b, h.trans hk, hm⟩

namespace Ready

lemma go (h : m.Ready foot d k b) {c : Control} (hc : c.Suits k.Lists b) :
    (m.go c).Meets foot d k :=
  ⟨k, b, .refl k, ⟨{ h.tidy with }, h.stack⟩, hc⟩

lemma give (h : m.Ready foot d k b) (hv : b → v.isBoxed) : (m.give v).Meets foot d k :=
  h.go hv

lemma boxed (h : m.Ready foot d k b) (hv : v.isBoxed) : (m.give v).Meets foot d k :=
  h.give fun _ => hv

lemma raw (h : m.Ready foot d k false) (v) : (m.give v).Meets foot d k :=
  h.give nofun

lemma raise (h : m.Ready foot d k b) (f place) : (m.raise f place).Meets foot d k :=
  h.go trivial

variable {p : Pending}

section

variable (h : m.Ready foot d k b')
include h

lemma pend (hp : p.Proper k.Lists) (ht : p.Turns b b') :
    ({ m with stack := p :: m.stack } : Machine).Ready foot d k b :=
  ⟨{ h.tidy with }, .part hp ht h.stack⟩

lemma eval {e : Expr} (he : e.Proper k.Lists) (hd : b → e.isDynamic) (hp : p.Proper k.Lists)
    (ht : p.Turns b b') (frame) : (m.eval e frame p).Meets foot d k :=
  (h.pend hp ht).go ⟨he, hd⟩

lemma evalAny {e : Expr} (he : e.Proper k.Lists) (hp : p.Proper k.Lists) (ht : p.Turns false b')
    (frame) : (m.eval e frame p).Meets foot d k :=
  h.eval (b := false) he nofun hp ht frame

lemma exec {s : Stmt} (hs : s.Proper k.Lists) (hp : p.Proper k.Lists) (ht : p.Turns false b')
    (frame) : (m.exec s frame p).Meets foot d k :=
  (h.pend hp ht).go ⟨hs, rfl⟩

end

section

variable (h : m.Ready foot d k b)
include h

lemma look {f : Heap → Except Fault Value} (place) (hf : ∀ v, f m.heap = .ok v → b → v.isBoxed) :
    (m.look f place).Meets foot d k := by
  unfold Machine.look
  split
  · exact h.give (hf _ ‹_›)
  · exact h.raise _ _

lemma onHeap {α : Type} {f : HeapM α} (hf : f.Tame) (place) {Q : α → Prop} (hy : f.Yields Q)
    {next : Machine → α → Machine}
    (hn : ∀ a heap, Q a → ({ m with heap := heap } : Machine).Ready foot d k b →
      (next { m with heap := heap } a).Meets foot d k) : (m.onHeap f place next).Meets foot d k := by
  rw [onHeap_eq]
  have keeps := (hf m.heap).1
  split
  · rename_i a heap hr
    rw [hr] at keeps
    exact hn a heap ((hy _ trivial).2 a heap hr) ⟨h.tidy.keeps keeps, h.stack⟩
  · rename_i e heap hr
    rw [hr] at keeps
    have left : ({ m with heap := heap } : Machine).Ready foot d k b :=
      ⟨h.tidy.keeps keeps, h.stack⟩
    exact left.raise e place

lemma giveYield {f : HeapM Value} (hf : f.Tame) (hy : f.Yields fun u => u.isBoxed) (place) :
    (m.onHeap f place fun m v => m.give v).Meets foot d k :=
  h.onHeap hf place hy fun _ _ hu hm => hm.boxed hu

lemma giveConverted (v : Value) (place) :
    (m.onHeap v.convert place fun m v => m.give v).Meets foot d k :=
  h.giveYield v.tame_convert v.yields_convert place

lemma giveArray (items) : (m.giveArray items).Meets foot d k :=
  h.onHeap (HeapM.Moves.make fun _ => .of_functions_eq rfl) _
    (.free _) fun _ _ _ hm => hm.boxed rfl

lemma withText (v place) {next : Machine → String → Machine} (hn : ∀ s, (next m s).Meets foot d k) :
    (m.withText v place next).Meets foot d k := by
  unfold Machine.withText
  split
  · exact hn _
  · exact h.raise _ _

end

end Ready

/-! ### The standard library -/

lemma warn_eq (m : Machine) (w) : ∃ interpreters world,
    m.warn w = { m with interpreters := interpreters, world := world } := by
  refine warn_induct (P := fun n => ∃ interpreters world,
    n = { m with interpreters := interpreters, world := world }) w ⟨_, _, rfl⟩ ?_
  rintro _ r ⟨interpreters, world, rfl⟩
  exact ⟨_, _, rfl⟩

namespace Ready

section

variable (h : m.Ready foot d k b)
include h

lemma outside (interpreters current collectors world) : ({ m with
      interpreters := interpreters, current := current, collectors := collectors, world := world } :
        Machine).Ready foot d k b :=
  ⟨{ h.tidy with }, h.stack⟩

lemma warn (w) : (m.warn w).Ready foot d k b := by
  obtain ⟨interpreters, world, e⟩ := m.warn_eq w
  rw [e]
  exact h.outside interpreters m.current m.collectors world

lemma onWorld (f : World → World) : (m.onWorld f).Ready foot d k b :=
  h.outside m.interpreters m.current m.collectors (f m.world)

lemma newFrame {f : Frame} (hf : ∀ c ∈ f.cells, k.Admits c.1 c.2) :
    (m.newFrame f).2.Ready foot d k b :=
  ⟨h.tidy.newFrame hf, h.stack⟩

end

/-! ### Runs -/

lemma runStatements (h : m.Ready foot d k false) {x : Block} {rest} (hx : x.Proper k.Lists)
    (hr : ∀ s ∈ rest, s.Proper k.Lists) (frame) : (m.runStatements x rest frame).Meets foot d k := by
  cases rest with
  | nil => exact h.raw _
  | cons s rest =>
    obtain ⟨hs, hr⟩ := forall_mem_cons.1 hr
    exact h.exec (p := .block x rest frame) hs ⟨hx, hr⟩ rfl frame

lemma startRun (h : m.Ready foot d k b) {p : Program} (hp : p.body.Proper k.Lists) (i) :
    (m.startRun i p).Meets foot d k := by
  have cells := h.tidy.admits_extend (m.interpreter i).globals hp.slots
  have started : ({ m with
      frames := m.frames.modify (m.interpreter i).globals fun f => f.extend p.body.slots
      collectors := i :: m.collectors
      stack := .run m.current :: m.stack
      current := i } : Machine).Ready foot d k false :=
    ⟨{ h.tidy with cells := forall_cells_modify h.tidy.cells cells }, .part trivial trivial h.stack⟩
  exact started.runStatements hp hp.statements _

lemma newInterpreter (h : m.Ready foot d k b) (limit : Int) (relinks : Bool) :
    (m.newInterpreter limit relinks).2.Ready foot d k b :=
  ⟨{ h.tidy with cells := forall_cells_push h.tidy.cells (forall_mem_nil _) }, h.stack⟩

end Ready

/-- **Compiled code, on the roll.**  Compiling puts the slots of the new code on the roll, and all code
that was linked keeps its slots. -/
theorem exists_roll (hk : k.limit ≤ m.supply.slot) {source options linked}
    (hl : ∀ s ∈ linked, k.Lists s) {u}
    (hu : (DynScript.compile source options m.registry linked m.supply).result = .ok u) :
    ∃ k', k.Le k' ∧
      k'.limit ≤ (DynScript.compile source options m.registry linked m.supply).supply.slot ∧
      u.program.body.Proper k'.Lists ∧ ∀ s ∈ u.program.body.binders, k'.Lists s := by
  have inScope := scoped_of_compile hu
  have grows := (supply_le_compile source options m.registry linked m.supply).1
  have le := k.le_enrol (le_trans hk grows) u.program.body.binders
  have listed := Roll.lists_enrol hk inScope.fresh
  refine ⟨_, le, le_rfl, ?_, listed⟩
  exact u.program.body.proper_of_made (fun s hs => (hl s hs).mono le) (made_of_compile hu)
    inScope.bound listed

namespace Ready

lemma mono (h : m.Ready foot d k b) (hk : k.Le k') (hl : k'.limit ≤ m.supply.slot) :
    m.Ready foot d k' b where
  tidy :=
    { limit := hl
      functions := fun c hc => (h.tidy.functions c hc).mono fun _ => .mono hk
      cells := fun r c hc => (h.tidy.cells r c hc).mono hk }
  stack := h.stack.mono fun _ => .mono hk

lemma evaluateText (h : m.Ready foot d k b) (code place) :
    (m.evaluateText code place).Meets foot d k := by
  unfold Machine.evaluateText
  split
  · exact (h.warn _).boxed rfl
  · rename_i source _
    have grows := (supply_le_compile source evalOptions m.registry [] m.supply).1
    have told : (m.compile source evalOptions []).2.Ready foot d k b :=
      ⟨{ h.tidy with limit := le_trans h.tidy.limit grows }, h.stack⟩
    dsimp only
    split
    · exact (told.warn _).boxed rfl
    · rename_i u hu
      split
      · obtain ⟨k', hk, limit, proper, -⟩ := exists_roll h.tidy.limit (forall_mem_nil _) hu
        have ready := (told.mono hk limit).newInterpreter defaultLimit true
        refine Meets.widen hk (Ready.startRun (b := b) ?_ proper _)
        exact ready.pend trivial id
      · exact (told.warn _).boxed rfl

lemma concludes {arguments place} {n} (hc : Concludes arguments place m n) (h : m.Ready foot d k b) :
    n.Meets foot d k := by
  induction hc with
  | datum m => exact h.boxed rfl
  | array m => exact h.giveArray _
  | input m => exact h.giveConverted _ _
  | raise m => exact h.raise _ _
  | warn w _ ih => exact ih (h.warn w)
  | world _ _ _ ih => exact ih (h.outside _ _ _ _)

lemma callBuiltin (h : m.Ready foot d k b) (x arguments place) :
    (m.callBuiltin x arguments place).Meets foot d k := by
  by_cases hx : x = .evaluate
  · subst hx
    exact h.evaluateText _ place
  · exact concludes (concludes_callBuiltin m hx arguments place) h

/-! ### Calls -/

lemma enter (h : m.Ready foot d k b) {c : Closure} (hc : c.code.expr.Proper k.Lists)
    {self : Value} (hs : self.isBoxed) {arguments} (ha : ∀ v ∈ arguments, v.isBoxed) (place) :
    (m.enter c self arguments place).Meets foot d k := by
  unfold Machine.enter
  dsimp only
  split
  · exact h.raise _ _
  · cases hc with
    | function _ _ hp hself hb _ =>
      have cells : ∀ x ∈ ((c.code.params.zip arguments).map fun p => (p.1.id, p.2)) ++
          c.code.self.toList.map fun slot => (slot.id, self), k.Admits x.1 x.2 := by
        intro x hx
        rcases mem_append.1 hx with hx | hx
        · obtain ⟨p, hm, rfl⟩ := mem_map.1 hx
          obtain ⟨hm, hv⟩ := of_mem_zip hm
          exact (hp p.1 hm).admits (ha p.2 hv)
        · obtain ⟨slot, hm, rfl⟩ := mem_map.1 hx
          exact (hself slot (Option.mem_toList.1 hm)).admits hs
      have framed := h.newFrame (f := { parent := c.frame, cells := _ }) cells
      refine ⟨k, false, .refl k, ⟨{ framed.tidy with }, ?_⟩, .block hb, rfl⟩
      exact .part trivial trivial h.stack

lemma callHost (hh : host.Orderly) (h : m.Ready foot d k b) (symbol bound arguments place) :
    (m.callHost host symbol bound arguments place).Meets foot d k := by
  have keeps := hh.keeps symbol bound arguments m.heap
  unfold Machine.callHost
  generalize host.call symbol bound arguments m.heap = x at keeps
  obtain ⟨answer, heap⟩ := x
  have left : ({ m with heap := heap } : Machine).Ready foot d k b :=
    ⟨h.tidy.keeps keeps, h.stack⟩
  cases answer with
  | value v => exact left.giveConverted v place
  | error e => exact left.go trivial
  | invoke f arguments =>
    have site := left.pend (p := .site place) trivial id
    exact site.go trivial

lemma call (hh : host.Orderly) (h : m.Ready foot d k b) {c}
    (hc : ∀ x, c = .closure x → x.code.expr.Proper k.Lists) {self : Value} (hs : self.isBoxed)
    (arguments place) : (m.call host c self arguments place).Meets foot d k := by
  unfold Machine.call
  split
  · exact h.raise _ _
  · refine h.onHeap (HeapM.Moves.mapM Value.tame_convert _) place
      (.mapM fun v _ => v.yields_convert) fun us heap hu ready => ?_
    have accepted : ∀ v ∈ c.accepted us, v.isBoxed :=
      fun v hv => hu v (Callable.mem_of_mem_accepted hv)
    cases c with
    | closure c => exact ready.enter (hc c rfl) hs accepted place
    | native f =>
      dsimp only
      split
      · exact ready.callBuiltin _ _ _
      · exact ready.callHost hh _ _ _ _

lemma apply (hh : host.Orderly) (h : m.Ready foot d k b) (callee arguments place) :
    (m.apply host callee arguments place).Meets foot d k := by
  unfold Machine.apply
  split
  · exact h.call hh (fun _ e => by cases e) rfl _ _
  · split
    · exact h.raise _ _
    · split
      · rename_i r _
        exact h.call hh (fun x hx => h.tidy.functions x ⟨r, hx⟩) rfl _ _
      · exact h.raise _ _

lemma evalArguments (h : m.Ready foot d k b) (callee before) {rest}
    (hr : ∀ e ∈ rest, e.Proper k.Lists) (frame place) :
    (m.evalArguments callee before rest frame place).Meets foot d k := by
  cases rest with
  | nil => exact h.go trivial
  | cons e rest =>
    obtain ⟨he, hr⟩ := forall_mem_cons.1 hr
    exact h.evalAny (p := .argument callee before rest frame place) he hr trivial frame

/-! ### Assignments and variables -/

lemma storeVariable (h : m.Ready foot d k b) (c v place) :
    (m.storeVariable c v place).Meets foot d k := by
  refine h.onHeap v.tame_convert place v.yields_convert fun u heap hu ready => ?_
  have stored : (({ m with heap := heap } : Machine).store c u).Ready foot d k b :=
    ⟨ready.tidy.store fun _ => hu, h.stack⟩
  exact stored.boxed hu

lemma storeIndex (h : m.Ready foot d k b) (container index v place) :
    (m.storeIndex container index v place).Meets foot d k :=
  h.giveYield (container.tame_setIndex index v) (container.yields_setIndex index v) place

lemma storeField (h : m.Ready foot d k b) (container key v place) :
    (m.storeField container key v place).Meets foot d k :=
  h.giveYield (container.tame_setField key v) (container.yields_setField key v) place

lemma update (h : m.Ready foot d k b) {u : Update} (hu : u.Proper k.Lists) (frame place)
    (current : Heap → Except Fault Value) {pending : Option (BinaryOp × Value) → Pending}
    (hp : ∀ old, (pending old).Proper k.Lists) (ht : ∀ old, (pending old).Turns false b)
    {store : Machine → Value → Machine} (hs : ∀ v, (store m v).Meets foot d k) :
    (m.update u frame place current pending store).Meets foot d k := by
  unfold Machine.update
  cases hu with
  | set _ he => exact h.evalAny he (hp _) (ht _) frame
  | combine op _ he =>
    dsimp only
    split
    · exact h.evalAny he (hp _) (ht _) frame
    · exact h.raise _ _
  | step op =>
    dsimp only
    split
    · split
      · exact hs _
      · exact h.raise _ _
    · exact h.raise _ _

lemma stored (h : m.Ready foot d k b) (old v place) {store : Value → Machine}
    (hs : ∀ u, (store u).Meets foot d k) :
    (match updated m.heap old v with
      | .ok u => store u
      | .error f => m.raise f place).Meets foot d k := by
  split
  · exact hs _
  · exact h.raise _ _

lemma evalFields (h : m.Ready foot d k b) (record) {rest} (hr : ∀ f ∈ rest, f.2.Proper k.Lists)
    (frame place) : (m.evalFields record rest frame place).Meets foot d k := by
  cases rest with
  | nil => exact h.boxed rfl
  | cons f rest =>
    obtain ⟨he, hr⟩ := forall_mem_cons.1 hr
    exact h.evalAny (p := .recordField record f.1 rest frame place) he hr trivial frame

lemma withCell (h : m.Ready foot d k b) {slot frame} (place) {next : Cell → Machine}
    (hn : ∀ c, m.cell? slot frame = some c → (next c).Meets foot d k) :
    (m.withCell slot frame place next).Meets foot d k := by
  unfold Machine.withCell
  split
  · exact hn _ ‹_›
  · exact h.raise _ _

/-! ### Expressions and statements -/

lemma makeFunction (h : m.Ready foot d k b) {code : FunctionCode} (hc : code.expr.Proper k.Lists)
    (frame) :
    (m.onHeap (HeapM.make (·.newFunction (.closure ⟨code, frame, m.current⟩))) none fun m r =>
      m.giveDatum (.callable r)).Meets foot d k := by
  rw [onHeap_eq]
  have made : ({ m with heap := (m.heap.newFunction (.closure ⟨code, frame, m.current⟩)).2 } :
      Machine).Ready foot d k b := by
    refine ⟨{ h.tidy with functions := ?_ }, h.stack⟩
    rintro c ⟨r, hr⟩
    rw [Heap.function_newFunction] at hr
    split at hr
    · cases hr
      exact hc
    · exact h.tidy.functions c ⟨r, hr⟩
  exact made.boxed rfl

/-- **Starting to evaluate** an expression that is dynamic if a boxed value is needed. -/
theorem stepEval (h : m.Ready foot d k b) {e : Expr} (he : e.Proper k.Lists) (hd : b → e.isDynamic)
    (frame) : (m.stepEval host e frame).Meets foot d k := by
  cases he with
  | literal value p => exact h.give fun hb => by cases hd hb
  | read hs p =>
    refine h.withCell p fun c hc => h.give fun hb => h.tidy.isBoxed_load hc ?_
    rw [← hs.constant]
    simpa [Expr.isDynamic] using hd hb
  | @box inner _ he => exact h.evalAny (p := .box inner.place) he trivial trivial frame
  | unbox he =>
    cases b with
    | false => exact h.evalAny (p := .unbox) he trivial rfl frame
    | true => cases hd rfl
  | @array l _ hl p =>
    cases l with
    | nil => exact h.giveArray _
    | cons e l =>
      obtain ⟨he, hl⟩ := forall_mem_cons.1 hl
      exact h.evalAny (p := .arrayItem [] l frame p) he hl trivial frame
  | @record l self hs _ hl p =>
    simp only [Machine.stepEval]
    refine h.onHeap (Q := fun _ => True) (HeapM.Moves.make fun _ => .of_functions_eq rfl) _
      (.free _) fun r heap _ ready => ?_
    have cells : ∀ c ∈ [(self.id, Value.boxed (.record r))], k.Admits c.1 c.2 :=
      forall_mem_singleton.2 (hs.admits rfl)
    exact (ready.newFrame (f := { parent := frame, cells := _ }) cells).evalFields r hl _ p
  | @function name params body exit self hp hs hb p =>
    have proper : (FunctionCode.mk name params body exit self).expr.Proper k.Lists :=
      .function name exit hp hs hb default
    exact h.makeFunction proper frame
  | @binary op l r hl hr p =>
    refine h.eval (b := l.isDynamic) (p := .binaryLeft op r frame p) hl id hr (fun hb => ?_) frame
    simpa [Expr.isDynamic] using hd hb
  | @logical op l r hl hr p =>
    cases b with
    | false => exact h.evalAny (p := .logicalLeft op r frame) hl hr rfl frame
    | true => cases hd rfl
  | @unary op e he p => exact h.eval (b := b) (p := .unary op p) he hd trivial id frame
  | @ternary c x y dx dy hc hx hy p =>
    exact h.evalAny (p := .ternary x y frame) hc ⟨hx, hy⟩ (fun _ => ⟨dx, dy⟩) frame
  | @assignVariable slot u hs hu p =>
    refine h.withCell p fun c _ => h.update hu frame p _ (fun _ => ?_) (fun _ => ?_) fun v => ?_
    · trivial
    · trivial
    · exact h.storeVariable c v p
  | @assignIndex c i u hc hi hu p =>
    exact h.evalAny (p := .assignIndexContainer i u frame p) hc ⟨hi, hu⟩ trivial frame
  | @assignField c i u hc hi hu p =>
    exact h.evalAny (p := .assignFieldContainer i u frame p) hc ⟨hi, hu⟩ trivial frame
  | @call f l hf _ hl p => exact h.evalAny (p := .callee l frame p) hf hl trivial frame
  | native name f _ hl p => exact h.evalArguments _ _ hl frame p
  | @index c i hc hi p =>
    refine h.eval (b := c.isDynamic) (p := .indexContainer i frame p) hc id hi (fun hb => ?_) frame
    simpa [Expr.isDynamic] using hd hb
  | @field c i hc hi p => exact h.evalAny (p := .fieldContainer i frame p) hc hi trivial frame

lemma stepExec (h : m.Ready foot d k false) {s : Stmt} (hs : s.Proper k.Lists) (frame) :
    (m.stepExec s frame).Meets foot d k := by
  cases hs with
  | expression he p => exact h.go ⟨he, nofun⟩
  | @declare slot e hs hd he p =>
    refine h.eval (b := !slot.constant) (p := .declare slot frame p) he (fun hb => hd ?_) hs
      ⟨fun hc => ?_, rfl⟩ frame
    · simpa using hb
    · simp [hc]
  | print he p => exact h.evalAny (p := .print p) he trivial rfl frame
  | @block x hx =>
    unfold Machine.stepExec
    dsimp only
    split
    · exact h.runStatements hx hx.statements frame
    · exact (h.newFrame (Tidy.admits_fresh hx.slots)).runStatements hx hx.statements _
  | @branch c x y hc hx hy p =>
    exact h.evalAny (p := .branch x y frame) hc ⟨hx, hy⟩ rfl frame
  | @loop c x y exit next hc hx hy p =>
    exact h.evalAny (p := .loopTest c x y exit next frame) hc ⟨hc, hx, hy⟩ rfl frame
  | @jump target v _ hv p =>
    cases v with
    | none => exact h.go trivial
    | some e => exact h.evalAny (p := .jumpValue target) (hv e rfl) trivial trivial frame
  | label target p => exact h.raw _

/-! ### Values -/

lemma nextRound (h : m.Ready foot d k false) {c : Expr} {x : Stmt} {y} (exit next)
    (hc : c.Proper k.Lists) (hx : x.Proper k.Lists) (hy : ∀ e ∈ y, e.Proper k.Lists) (frame) :
    (m.nextRound c x y exit next frame).Meets foot d k := by
  cases y with
  | none => exact h.evalAny (p := .loopTest c x none exit next frame) hc ⟨hc, hx, hy⟩ rfl frame
  | some e =>
    exact h.evalAny (p := .loopStep c x (some e) exit next frame) (hy e rfl) ⟨hc, hx, hy⟩ rfl frame

lemma leaveCall (h : m.Ready foot d k b) (owner caller) :
    (m.leaveCall owner caller).Ready foot d k b :=
  h.outside _ caller m.collectors m.world

lemma leaveRun (h : m.Ready foot d k b) (caller) : (m.leaveRun caller).Ready foot d k b :=
  h.outside m.interpreters caller m.collectors.tail m.world

/-- **Handing a value to what waits for it** inside of a call or a run. -/
theorem resume {w} {A : Container → Prop} (h : m.Ready foot d k b')
    (heap : m.heap.Like w False A m.heap) {p : Pending} (hp : p.Proper k.Lists) (ht : p.Turns b b')
    (hl : p.Like w False A p) (hv : b → v.isBoxed) :
    (m.resume host p v).Meets foot d k := by
  cases p with
  | box place => exact h.giveConverted v place
  | unbox =>
    subst ht
    exact h.raw _
  | arrayItem before rest frame place =>
    simp only [Machine.resume]
    refine h.onHeap v.tame_convert place v.yields_convert fun u _ _ ready => ?_
    cases rest with
    | nil => exact ready.giveArray _
    | cons e rest =>
      obtain ⟨he, hr⟩ := forall_mem_cons.1 hp
      exact ready.evalAny (p := .arrayItem (u :: before) rest frame place) he hr trivial frame
  | recordField record name rest frame place =>
    simp only [Machine.resume]
    refine h.onHeap v.tame_convert place v.yields_convert fun u _ _ ready => ?_
    have keeps : HeapM.Tame (modify (·.setField record name u)) :=
      .modifying fun _ => .of_functions_eq rfl
    exact ready.onHeap (Q := fun _ => True) keeps _ (.free _) fun _ _ _ ready =>
      ready.evalFields record hp frame place
  | binaryLeft op right frame place =>
    refine h.eval (b := right.isDynamic) (p := .binaryRight op v place) hp id trivial
      (fun hb => ?_) frame
    exact (ht hb).symm.imp_right hv
  | binaryRight op left place =>
    simp only [Machine.resume]
    refine h.look place fun u hu hb => ?_
    rw [Heap.isBoxed_binary hu, Bool.or_eq_true]
    exact (ht hb).symm.imp_right hv
  | logicalLeft op right frame =>
    subst ht
    simp only [Machine.resume]
    split
    · exact h.raw _
    · exact h.raw _
    · exact h.evalAny (p := .logicalRight _ _) hp trivial rfl frame
  | logicalRight op left =>
    subst ht
    exact h.raw _
  | unary op place =>
    simp only [Machine.resume]
    refine h.look place fun u hu hb => ?_
    rw [Heap.isBoxed_unary hu]
    exact hv (ht hb)
  | ternary first second frame =>
    simp only [Machine.resume]
    split
    · exact h.go ⟨hp.1, fun hb => (ht hb).1⟩
    · exact h.go ⟨hp.2, fun hb => (ht hb).2⟩
  | storeVariable c old place => exact h.stored old v place fun u => h.storeVariable c u place
  | assignIndexContainer index u frame place =>
    exact h.evalAny (p := .assignIndex v u frame place) hp.1 hp.2 trivial frame
  | storeIndex container index old place =>
    exact h.stored old v place fun u => h.storeIndex container index u place
  | assignFieldContainer key u frame place =>
    exact h.evalAny (p := .assignField v u frame place) hp.1 hp.2 trivial frame
  | assignIndex container u frame place | assignField container u frame place =>
    simp only [Machine.resume]
    refine h.update hp frame place _ (fun _ => ?_) (fun _ => ?_) fun u => ?_
    · trivial
    · trivial
    · first
      | exact h.storeIndex container v u place
      | exact h.storeField container v u place
  | storeField container key old place =>
    exact h.stored old v place fun u => h.storeField container key u place
  | callee arguments frame place => exact h.evalArguments _ _ hp frame place
  | argument callee before rest frame place => exact h.evalArguments _ _ hp frame place
  | indexContainer index frame place =>
    refine h.eval (b := index.isDynamic) (p := .index v place) hp id trivial (fun hb => ?_) frame
    exact (ht hb).symm.imp_right hv
  | index container place =>
    simp only [Machine.resume]
    cases hl with
    | index hc _ =>
      refine h.look place fun u hu hb => ?_
      exact Value.isBoxed_getIndex heap hc ((ht hb).symm.imp_right hv) hu
  | fieldContainer key frame place =>
    exact h.evalAny (p := .field v place) hp trivial trivial frame
  | field container place =>
    cases hl with
    | field hc _ =>
      simp only [Machine.resume]
      exact h.look place fun u hu _ => Value.isBoxed_getField heap hc hu
  | declare slot frame place =>
    obtain ⟨needs, rfl⟩ := ht
    refine h.withCell place fun c hc => ?_
    obtain ⟨e, -⟩ := cellWithin_eq_some hc
    have stored : (m.store c v).Ready foot d k false :=
      ⟨h.tidy.store fun hk => hv (needs (by rw [hp.constant, ← e, hk])), h.stack⟩
    exact stored.raw _
  | print place =>
    subst ht
    simp only [Machine.resume]
    exact h.withText v place fun s => (h.onWorld _).raw _
  | block x rest frame =>
    subst ht
    cases rest with
    | nil => exact h.raw _
    | cons s rest =>
      obtain ⟨hs, hr⟩ := forall_mem_cons.1 hp.2
      exact h.exec (p := .block x rest frame) hs ⟨hp.1, hr⟩ rfl frame
  | branch first second frame =>
    subst ht
    simp only [Machine.resume]
    split
    · exact h.exec (p := .discard) hp.1 trivial rfl frame
    · split
      · exact h.exec (p := .discard) (hp.2 _ rfl) trivial rfl frame
      · exact h.raw _
  | discard =>
    subst ht
    exact h.raw _
  | loopTest c x y exit next frame =>
    subst ht
    simp only [Machine.resume]
    split
    · exact h.exec (p := .loopBody c x y exit next frame) hp.2.1 hp rfl frame
    · exact h.raw _
  | loopBody c x y exit next frame =>
    subst ht
    exact h.nextRound exit next hp.1 hp.2.1 hp.2.2 frame
  | loopStep c x y exit next frame =>
    subst ht
    exact h.evalAny (p := .loopTest c x y exit next frame) hp.1 hp rfl frame
  | jumpValue target => exact h.go trivial
  | call | run => cases hl
  | site place => exact h.give fun hb => hv (ht hb)

/-! ### Jumps and errors -/

lemma jumpThrough (h : m.Ready foot d k b') {p : Pending} (hp : p.Proper k.Lists)
    (ht : p.Turns b b') {target} (hm : m.control = .jump target v) :
    (m.jumpThrough p target v).Meets foot d k := by
  have passed : m.Meets foot d k := ⟨k, b', .refl k, h, by rw [hm]; trivial⟩
  cases p with
  | block x rest frame =>
    subst ht
    simp only [Machine.jumpThrough]
    split
    · rename_i rest hr
      refine h.runStatements hp.1 (fun s hs => hp.1.statements s ?_) frame
      exact Block.subset_of_afterLabel hr s hs
    · exact passed
  | loopBody c x y exit next frame =>
    subst ht
    simp only [Machine.jumpThrough]
    split
    · exact h.raw _
    · split
      · exact h.nextRound exit next hp.1 hp.2.1 hp.2.2 frame
      · exact passed
  | call exit owner caller place =>
    have left := h.leaveCall owner caller
    simp only [Machine.jumpThrough]
    split
    · exact left.giveConverted v place
    · exact ⟨k, b', .refl k, left, by simp [Machine.leaveCall, updateInterpreter, hm, Control.Suits]⟩
  | run caller => exact (h.leaveRun caller).raise _ _
  | _ => exact passed

lemma raiseThrough (h : m.Ready foot d k b') (p) {e} (hm : m.control = .raise e) :
    (m.raiseThrough p e).Meets foot d k := by
  have passed : m.Meets foot d k := ⟨k, b', .refl k, h, by rw [hm]; trivial⟩
  cases p with
  | call exit owner caller place =>
    exact ⟨k, b', .refl k, h.leaveCall owner caller,
      by simp [Machine.raiseThrough, Machine.leaveCall, updateInterpreter, hm, Control.Suits]⟩
  | run caller =>
    exact ⟨k, b', .refl k, h.leaveRun caller,
      by simp [Machine.raiseThrough, Machine.leaveRun, hm, Control.Suits]⟩
  | site place => exact h.go trivial
  | _ => exact passed

end Ready

/-! ### Steps -/

/-- **A step meets the demands of what is pending,** unless it takes up the foot of the stack. -/
theorem meets_step {U} (hh : host.Orderly) (ho : m.Orderly U) (h : m.Meets foot d k)
    (hf : ¬ (m.stack = foot ∧ TakesUp m.control)) : (m.step host).Meets foot d k := by
  obtain ⟨w, A, order⟩ := ho
  obtain ⟨k', b, hk, ready, suits⟩ := h
  refine Meets.widen hk ?_
  have likes := order.akin.stack
  -- What is taken off the stack turns the demand, and the machine without it is ready again.
  have pop (takes : TakesUp m.control) (c : Control) : ∃ p rest b', m.stack = p :: rest ∧
      p.Proper k'.Lists ∧ p.Turns b b' ∧
      ({ m with control := c, stack := rest } : Machine).Ready foot d k' b' := by
    obtain ⟨p, rest, b', e, hp, ht, ha⟩ := ready.stack.pop fun e => hf ⟨e, takes⟩
    exact ⟨p, rest, b', e, hp, ht, { ready.tidy with }, ha⟩
  unfold Machine.step
  cases hc : m.control with
  | eval e frame =>
    rw [hc] at suits
    exact ready.stepEval suits.1 suits.2 frame
  | exec s frame =>
    rw [hc] at suits
    obtain ⟨hs, rfl⟩ := suits
    exact ready.stepExec hs frame
  | apply callee arguments place => exact ready.apply hh callee arguments place
  | give v =>
    rw [hc] at suits pop
    obtain ⟨p, rest, b', e, hp, ht, popped⟩ := pop trivial (.give v)
    rw [e] at likes ⊢
    cases likes with
    | foot h => cases h.1
    | cons hl _ => exact popped.resume order.akin.heap hp ht hl suits
    | call owner caller => exact (popped.leaveCall owner caller).boxed rfl
    | run caller => exact (popped.leaveRun caller).giveConverted v none
  | jump target v =>
    rw [hc] at pop
    obtain ⟨p, rest, b', e, hp, ht, popped⟩ := pop trivial (.jump target v)
    rw [e]
    exact popped.jumpThrough hp ht rfl
  | raise e =>
    rw [hc] at pop
    obtain ⟨p, rest, b', es, -, -, popped⟩ := pop trivial (.raise e)
    rw [es]
    exact popped.raiseThrough p rfl

end Machine

end DynScript

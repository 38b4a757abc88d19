import DynScript.Proofs.Faults
import DynScript.Proofs.Frames
import DynScript.Proofs.StatementScoping

/-!
# Machines that hold well-scoped code

All the code on a machine, in its control, on its stack and in the functions in its heap, belongs to a
frame.
-/

namespace DynScript

/-- What is asked of the code on a machine: that its variables are bound, and that its jumps land. -/
structure Demand where
  closed : Prop
  clean : Prop

/-- What is asked of the code on a machine, and that it leaves a variable alone, which holds a value. -/
structure Charge extends Demand where
  apart : Option (Cell × Value)

namespace Charge

variable {d : Charge} {F G : Array Frame} {r : Nat} {V W : List Slot}

/-- Something is asked of the variables of the code. -/
def strict (d : Charge) : Prop :=
  d.closed ∨ d.apart.isSome

lemma lax {clean p : Prop} (h : strict ⟨⟨False, clean⟩, none⟩) : p :=
  h.elim False.elim fun some => by cases some

/-- The variables set apart hold what they are said to. -/
def Holds (d : Charge) (F : Array Frame) : Prop :=
  ∀ p ∈ d.apart, (frameAt F p.1.frame).get? p.1.id = some p.2

/-- What code at the frame `r` finds under the names of the variables `V` is as it should be. -/
structure Sees (d : Charge) (F : Array Frame) (r : Nat) (V : List Slot) : Prop where
  covers : d.closed → Covers F r V
  misses : ∀ p ∈ d.apart, p.1.frame < F.size ∧ ∀ slot ∈ V, slot.id = p.1.id → Misses F p.1 r

lemma Sees.grows (h : d.Sees F r V) (g : Grows F G) : d.Sees G r V where
  covers hd := (h.covers hd).grows g
  misses p hp := ⟨Nat.lt_of_lt_of_le (h.misses p hp).1 g.size,
    fun slot hs e => ((h.misses p hp).2 slot hs e).grows g⟩

lemma Sees.push (h : d.Sees F r V) {f : Frame} (hp : f.parent = some r)
    (hW : ∀ slot ∈ W, (f.get? slot.id).isSome) : d.Sees (F.push f) F.size (W ++ V) where
  covers hd := (h.covers hd).push hp hW
  misses p hm := by
    obtain ⟨lt, away⟩ := h.misses p hm
    refine ⟨Nat.lt_of_lt_of_le lt (Grows.push F f).size, fun slot hs e => ?_⟩
    rcases List.mem_append.1 hs with hs | hs
    · refine .here (Nat.ne_of_gt lt) ?_
      rw [Grows.frameAt_push, if_pos rfl, ← e]
      exact hW slot hs
    · exact (away slot hs e).push lt hp

lemma Sees.ne (h : d.Sees F r V) {slot} (hs : slot ∈ V) {depth : Nat} {c}
    (found : Machine.cellWithin F slot.id depth r = some c) : ∀ p ∈ d.apart, c ≠ p.1 := by
  rintro p hp rfl
  have id := (Machine.cellWithin_eq_some found).1
  rw [← id] at found
  exact ((h.misses p hp).2 slot hs id.symm).cellWithin_ne depth found

namespace Holds

variable (h : d.Holds F)
include h

lemma lt_size {p} (hp : p ∈ d.apart) : p.1.frame < F.size :=
  (.here (by rw [h p hp]; rfl) : Seen F p.1.id p.1.frame).lt_size

lemma push (f) : d.Holds (F.push f) := by
  intro p hp
  rw [Grows.frameAt_push, if_neg (Nat.ne_of_lt (h.lt_size hp)), h p hp]

lemma extend (i : Nat) (slots) : d.Holds (F.modify i fun f => f.extend slots) := by
  intro p hp
  rw [Grows.frameAt_modify _ _ _ _ (h.lt_size hp)]
  split
  · rw [Frame.get?_extend, h p hp]
    rfl
  · exact h p hp

lemma set {c} (hc : ∀ p ∈ d.apart, c ≠ p.1) (v) :
    d.Holds (F.modify c.frame fun f => f.set c.id v) := by
  intro p hp
  rw [Grows.frameAt_modify _ _ _ _ (h.lt_size hp)]
  split
  · rename_i same
    have ne : p.1.id ≠ c.id := fun e => hc p hp (by cases c; cases p with | mk p _ => cases p; simp_all)
    rw [Frame.get?_set, if_neg ne, h p hp]
  · exact h p hp

end Holds

end Charge

/-! ### Owners of labels -/

namespace Pending

/-- A pending part is the one that a jump to the number `id` leads to. -/
def Owns (id : Nat) : Pending → Prop
  | .block b _ _ => Stmt.LabelAmong b.statements id
  | .loopBody _ _ _ exit next _ => id = exit.id ∨ id = next.id
  | .call exit _ _ _ => id = exit.id
  | _ => False

/-- Jumps pass by a pending part: it is a block, a branch or the body of a loop. -/
def Passes : Pending → Prop
  | .block .. | .discard | .loopBody .. => True
  | _ => False

end Pending

/-- A jump to the number `id` leads to something pending, and to nothing beyond a call or a run. -/
def Owned (id : Nat) : List Pending → Prop
  | [] => False
  | p :: stack => p.Owns id ∨ p.Passes ∧ Owned id stack

lemma owned_block {id : Nat} {b} {rest frame stack} :
    Owned id (.block b rest frame :: stack) ↔
      Stmt.LabelAmong b.statements id ∨ Owned id stack := by
  simp [Owned, Pending.Owns, Pending.Passes]

/-! ### Code at a frame -/

section

variable {α β : Type} [Code α] [Code β]

/-- The code `a` fits at the frame `r`, jumps to the numbers in `T` being taken care of. -/
structure Fits (d : Charge) (F : Array Frame) (r : Nat) (T : Nat → Prop) (a : α) : Prop where
  lt_size : r < F.size
  bound : d.strict → ∃ V, Code.Bound V a ∧ d.Sees F r V
  lands : d.clean → Code.Lands T a

namespace Fits

variable {d : Charge} {F G : Array Frame} {r : Nat} {T U : Nat → Prop} {a : α} {b : β}

lemma grows (h : Fits d F r T a) (g : Grows F G) : Fits d G r T a where
  lt_size := Nat.lt_of_lt_of_le h.lt_size g.size
  bound hd := by
    obtain ⟨V, hb, hs⟩ := h.bound hd
    exact ⟨V, hb, hs.grows g⟩
  lands := h.lands

lemma part (h : Fits d F r T a) (hb : ∀ V, Code.Bound V a → Code.Bound V b)
    (hl : Code.Lands T a → Code.Lands U b) : Fits d F r U b where
  lt_size := h.lt_size
  bound hd := by
    obtain ⟨V, h, hs⟩ := h.bound hd
    exact ⟨V, hb V h, hs⟩
  lands hd := hl (h.lands hd)

lemma push (h : Fits d F r T a) {f : Frame} {W} (hp : f.parent = some r)
    (hW : ∀ slot ∈ W, (f.get? slot.id).isSome) (hb : ∀ V, Code.Bound V a → Code.Bound (W ++ V) b)
    (hl : Code.Lands T a → Code.Lands U b) : Fits d (F.push f) F.size U b where
  lt_size := by simp
  bound hd := by
    obtain ⟨V, h, hs⟩ := h.bound hd
    exact ⟨W ++ V, hb V h, hs.push hp hW⟩
  lands hd := hl (h.lands hd)

lemma fst (h : Fits d F r T (a, b)) : Fits d F r T a :=
  h.part (fun _ => And.left) And.left

lemma snd (h : Fits d F r T (a, b)) : Fits d F r T b :=
  h.part (fun _ => And.right) And.right

lemma member {l : List α} (h : Fits d F r T l) (ha : a ∈ l) : Fits d F r T a :=
  h.part (fun _ hb => hb a ha) fun hl => hl a ha

lemma tail {l} (h : Fits d F r T (a :: l)) : Fits d F r T l :=
  h.part (fun _ hb x hx => hb x (List.mem_cons_of_mem _ hx)) fun hl x hx =>
    hl x (List.mem_cons_of_mem _ hx)

lemma retarget (h : Fits d F r T a) (hT : ∀ id, T id → U id) : Fits d F r U a :=
  h.part (fun _ => id) (Code.lands_mono hT)

end Fits

end

/-- The expression that makes a function of some code. -/
def FunctionCode.expr (code : FunctionCode) : Expr :=
  .function code.name code.params code.body code.exit code.self default

/-- No label is in sight. -/
def noTarget : Nat → Prop := fun _ => False

/-! ### The parts of a machine -/

/-- The code in a pending part fits, what is below it on the stack being `stack`. -/
def Pending.Fits (d : Charge) (F : Array Frame) (stack : List Pending) (p : Pending) : Prop :=
  match p with
  | .arrayItem _ rest frame _ | .callee rest frame _ | .argument _ _ rest frame _ =>
    DynScript.Fits d F frame noTarget rest
  | .recordField _ _ rest frame _ => DynScript.Fits d F frame noTarget rest
  | .binaryLeft _ e frame _ | .logicalLeft _ e frame | .indexContainer e frame _
  | .fieldContainer e frame _ => DynScript.Fits d F frame noTarget e
  | .ternary first second frame => DynScript.Fits d F frame noTarget (first, second)
  | .assignIndexContainer e u frame _ | .assignFieldContainer e u frame _ =>
    DynScript.Fits d F frame noTarget (e, u)
  | .assignIndex _ u frame _ | .assignField _ u frame _ => DynScript.Fits d F frame noTarget u
  | .declare slot frame _ => DynScript.Fits d F frame noTarget (Expr.read slot default)
  | .block b rest frame =>
    (∀ s ∈ rest, s ∈ b.statements) ∧
      DynScript.Fits d F frame (fun id => Owned id (p :: stack)) b.statements
  | .branch first second frame => DynScript.Fits d F frame (Owned · stack) (first, second)
  | .loopTest condition body step exit next frame | .loopBody condition body step exit next frame
  | .loopStep condition body step exit next frame =>
    DynScript.Fits d F frame (fun id => id = exit.id ∨ id = next.id ∨ Owned id stack)
      (condition, step, body)
  | .jumpValue target => d.clean → Owned target.id stack
  | .storeVariable c _ _ => ∀ p ∈ d.apart, c ≠ p.1
  | _ => True

/-- All pending parts fit. -/
def StackFits (d : Charge) (F : Array Frame) : List Pending → Prop
  | [] => True
  | p :: stack => p.Fits d F stack ∧ StackFits d F stack

/-- What is about to be done fits the frames and the stack. -/
def Control.Fits (d : Charge) (F : Array Frame) (stack : List Pending) : Control → Prop
  | .eval e frame => DynScript.Fits d F frame noTarget e
  | .exec s frame => DynScript.Fits d F frame (Owned · stack) s
  | .jump target _ => d.clean → Owned target.id stack
  | .raise e => (d.closed → ∀ name, e.fault ≠ .unbound name) ∧
    (d.clean → ∀ name, e.fault ≠ .undefinedLabel name)
  | .give _ | .apply .. => True

/-- The code in frames, heap, interpreters and stack fits, and each interpreter has the global
variables `x` known of it. -/
structure Sound (d : Charge) (x : Ref → List Slot) (F : Array Frame) (H : Heap)
    (I : Array Interpreter) (S : List Pending) : Prop where
  rooted : Rooted F
  nonempty : 0 < F.size
  heap : ∀ c, H.Holds c → Fits d F c.frame noTarget c.code.expr
  globals : ∀ i : Nat, Covers F (I.getD i { globals := 0 }).globals (x i)
  unknown : ∀ i : Nat, I.size ≤ i → x i = []
  holds : d.Holds F
  stack : StackFits d F S

/-- All the code on a machine, its control aside, fits. -/
abbrev Machine.Sound (d : Charge) (x : Ref → List Slot) (m : Machine) : Prop :=
  DynScript.Sound d x m.frames m.heap m.interpreters m.stack

/-- A sound machine whose control fits. -/
structure Machine.Fits (d : Charge) (x : Ref → List Slot) (m : Machine) : Prop where
  sound : m.Sound d x
  control : m.control.Fits d m.frames m.stack

/-! ### Growing frames -/

section

variable {d : Charge} {F G : Array Frame} {H K : Heap} {I J : Array Interpreter}
  {S : List Pending} {p : Pending}

lemma Pending.Fits.grows (h : p.Fits d F S) (g : Grows F G) : p.Fits d G S := by
  unfold Pending.Fits at h ⊢
  split at h
  all_goals first
    | exact DynScript.Fits.grows h g
    | exact ⟨h.1, DynScript.Fits.grows h.2 g⟩
    | exact h

lemma StackFits.grows (h : StackFits d F S) (g : Grows F G) : StackFits d G S := by
  induction S with
  | nil => trivial
  | cons p S ih => exact ⟨h.1.grows g, ih h.2⟩

lemma Control.Fits.grows {c : Control} (h : c.Fits d F S) (g : Grows F G) : c.Fits d G S := by
  cases c with
  | eval | exec => exact DynScript.Fits.grows h g
  | _ => exact h

namespace Sound

variable {x : Ref → List Slot}

section

variable (h : Sound d x F H I S)
include h

lemma step (g : Grows F G) (hr : Rooted G) (hk : H.Keeps K)
    (hg : ∀ i : Nat, Covers G (J.getD i { globals := 0 }).globals (x i)) (hj : I.size ≤ J.size)
    (hh : d.Holds G) : Sound d x G K J S where
  rooted := hr
  nonempty := Nat.lt_of_lt_of_le h.nonempty g.size
  heap c hc := (h.heap c (hk c hc)).grows g
  globals := hg
  unknown i hi := h.unknown i (Nat.le_trans hj hi)
  holds := hh
  stack := h.stack.grows g

lemma keeps (hk : H.Keeps K) : Sound d x F K I S :=
  h.step (.refl F) h.rooted hk h.globals (Nat.le_refl _) h.holds

lemma modify (g : Grows F G) (hs : G.size = F.size) (hh : d.Holds G) : Sound d x G H I S :=
  h.step g (h.rooted.of_grows g hs) (.refl H) (fun i => (h.globals i).grows g) (Nat.le_refl _) hh

lemma push {f : Frame}
    (hf : ∀ r : Nat, f.parent = some r → r < F.size) : Sound d x (F.push f) H I S :=
  h.step (.push F f) (h.rooted.push hf) (.refl H) (fun i => (h.globals i).grows (.push F f))
    (Nat.le_refl _) (h.holds.push f)

end

lemma pop (h : Sound d x F H I (p :: S)) : Sound d x F H I S :=
  { h with stack := h.stack.2 }

lemma pend (h : Sound d x F H I S) (hp : p.Fits d F S) : Sound d x F H I (p :: S) :=
  { h with stack := ⟨hp, h.stack⟩ }

lemma update (h : Sound d x F H I S) (r : Nat) {f : Interpreter → Interpreter}
    (hf : ∀ i, (f i).globals = i.globals) : Sound d x F H (I.modify r f) S := by
  refine h.step (.refl F) h.rooted (.refl H) (fun i => ?_) (by simp) h.holds
  have := h.globals i
  simp only [Array.getD_eq_getD_getElem?, Array.getElem?_modify] at this ⊢
  split
  · cases hi : I[i]? <;> simp_all
  · exact this

end Sound

end

end DynScript

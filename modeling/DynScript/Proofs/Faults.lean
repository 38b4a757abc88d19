import DynScript.Machine.Run
import Mathlib.Tactic.Lemma

/-!
# What operations on values leave behind

Operations on values only make arrays, records and copies of functions, and they complain about values
only: no operation makes a function of its own or speaks of variables and labels.
-/

namespace DynScript

/-! ### Complaints -/

lemma eq_ok_of_toOption {ε α : Type} {x : Except ε α} {a : α}
    (h : x.toOption = some a) : x = .ok a := by
  cases x <;> cases h
  rfl

/-- The error that a run or call has ended with. -/
def raised? : Except RunError Value → Option RuntimeError
  | .error (.runtime e) => some e
  | _ => none

lemma eq_error_of_raised? {r e} (h : raised? r = some e) : r = .error (.runtime e) := by
  unfold raised? at h
  split at h <;> cases h
  rfl

lemma RuntimeError.withLocation_eq (e : RuntimeError) (place) :
    e.withLocation place = { e with location := e.location.or place } := by
  cases e with
  | mk fault location help => cases location <;> rfl

lemma RuntimeError.fault_withLocation (e : RuntimeError) (place) :
    (e.withLocation place).fault = e.fault := by
  rw [e.withLocation_eq]

/-- A fault that is not about variables or labels. -/
def Fault.Ordinary : Fault → Prop
  | .unbound _ | .undefinedLabel _ => False
  | _ => True

/-- A computation that fails with ordinary faults only. -/
def Decent {α : Type} (x : Except Fault α) : Prop :=
  ∀ f, x = .error f → f.Ordinary

namespace Decent

variable {α β : Type}

lemma pure (a : α) : Decent (.ok a) := by
  intro f h
  cases h

lemma throw {f : Fault} (h : f.Ordinary) : Decent (.error f : Except Fault α) := by
  intro g hg
  cases hg
  exact h

lemma bind {x} {g : α → Except Fault β} (hx : Decent x) (hg : ∀ a, Decent (g a)) :
    Decent (x >>= g) := by
  cases x with
  | error f => exact .throw (hx f rfl)
  | ok a => exact hg a

lemma mapM {g : α → Except Fault β} (hg : ∀ a, Decent (g a)) (l : List α) :
    Decent (l.mapM g) := by
  induction l with
  | nil => exact .pure []
  | cons a l ih =>
    rw [List.mapM_cons]
    exact (hg a).bind fun b => ih.bind fun bs => .pure (b :: bs)

end Decent

section

variable (h : Heap)

lemma Value.decent_kind (v : Value) : Decent v.kind := by
  cases v with
  | boxed d mark => exact .pure _
  | raw d => exact .pure _
  | alien a => cases a <;> first | exact .pure _ | exact .throw trivial

lemma Alien.decent_text (a : Alien) : Decent a.text := by
  cases a with
  | integer n =>
    simp only [Alien.text]
    split
    · exact .pure _
    · exact .throw trivial
  | _ => exact (Value.decent_kind _).bind fun _ => .pure _

lemma Heap.decent_contentText {part : Value → Except Fault String} (hp : ∀ v, Decent (part v)) (c) :
    Decent (h.contentText part c) := by
  cases c with
  | array r => exact (Decent.mapM hp _).bind fun _ => .pure _
  | record r => exact (Decent.mapM (fun (_, v) => (hp v).bind fun _ => .pure _) _).bind fun _ => .pure _

lemma Heap.decent_textWithin (depth : Nat) (path) (nested : Bool) (v) :
    Decent (h.textWithin depth path nested v) := by
  induction depth generalizing path nested v with
  | zero =>
    unfold Heap.textWithin
    split
    · exact Alien.decent_text _
    all_goals split <;> exact .pure _
  | succ depth ih =>
    unfold Heap.textWithin
    split
    · exact Alien.decent_text _
    all_goals
      split
      · exact .pure _
      · dsimp only
        split
        · exact .pure _
        · exact h.decent_contentText (fun v => ih _ _ v) _

lemma Heap.decent_text (v) : Decent (h.text v) :=
  h.decent_textWithin _ _ _ v

lemma decent_operandFault {α : Type} (symbol operands) :
    Decent (operandFault symbol operands : Except Fault α) :=
  (Decent.mapM Value.decent_kind _).bind fun _ => .throw trivial

lemma Value.decent_equal (v w : Value) : Decent (v.equal w) := by
  refine v.decent_kind.bind fun _ => w.decent_kind.bind fun _ => ?_
  split <;> exact .pure _

lemma Heap.decent_integer (symbol v) : Decent (h.integer symbol v) := by
  unfold Heap.integer
  split
  · exact .pure _
  · exact (h.decent_text v).bind fun _ => .throw trivial

lemma BinaryOp.decent_onIntegers (op : BinaryOp) (x y : Int) : Decent (op.onIntegers x y) := by
  unfold BinaryOp.onIntegers
  split <;> (try split) <;> (try split) <;> first | exact .pure _ | exact .throw trivial

lemma Heap.decent_binary (op v w) : Decent (h.binary op v w) := by
  refine Decent.bind ?_ fun _ => .pure _
  unfold Heap.binaryDatum
  split
  · exact (v.decent_equal w).bind fun _ => .pure _
  · exact (v.decent_equal w).bind fun _ => .pure _
  · unfold Heap.sum
    split
    · exact (h.decent_text v).bind fun _ => (h.decent_text w).bind fun _ => .pure _
    · split
      · exact .pure _
      · exact decent_operandFault _ _
  · split
    · unfold Heap.compared
      split
      · exact .pure _
      · exact .pure _
      · exact decent_operandFault _ _
    · unfold Heap.combined
      split
      · exact .pure _
      · exact decent_operandFault _ _
    · unfold Heap.bitwise
      split
      · refine (h.decent_integer _ v).bind fun _ => (h.decent_integer _ w).bind fun _ =>
          (BinaryOp.decent_onIntegers _ _ _).bind fun _ => ?_
        split
        · exact .pure _
        · exact .throw trivial
      · exact decent_operandFault _ _

lemma Heap.decent_unary (op v) : Decent (h.unary op v) := by
  unfold Heap.unary
  split
  · exact .pure _
  · split
    · exact decent_operandFault _ _
    · refine Decent.bind ?_ fun _ => .pure _
      unfold Heap.unaryNumber
      split <;> first
        | exact .pure _
        | exact .throw trivial
        | exact (h.decent_integer _ v).bind fun _ => .pure _

lemma Value.decent_position (index) (length : Nat) (kind) :
    Decent (Value.position h index length kind) := by
  unfold Value.position
  split
  · exact (h.decent_text index).bind fun _ => .throw trivial
  · split
    · exact .throw trivial
    · exact .pure _

lemma Value.decent_getIndex (container index : Value) : Decent (container.getIndex h index) := by
  refine Decent.bind (Value.decent_kind _) fun _ => ?_
  split
  · exact (Value.decent_position h _ _ _).bind fun _ => .pure _
  · exact (Value.decent_position h _ _ _).bind fun _ => .pure _
  · exact .throw trivial

lemma Value.decent_fieldName (key) : Decent (Value.fieldName h key) := by
  unfold Value.fieldName
  split
  · exact .pure _
  · exact h.decent_text key

lemma Value.decent_getField (container key : Value) : Decent (container.getField h key) := by
  refine Decent.bind (Value.decent_kind _) fun _ => (Value.decent_fieldName h _).bind fun _ => ?_
  split
  · split
    · exact .pure _
    · exact .throw trivial
  · exact .throw trivial

lemma Machine.decent_linesOf (items) : Decent (Machine.linesOf h items) :=
  (Decent.mapM h.decent_text _).bind fun _ => .pure _

lemma Machine.decent_updated (old v) : Decent (Machine.updated h old v) := by
  unfold Machine.updated
  split
  · exact .pure _
  · exact h.decent_binary _ _ _

end

/-! ### Changes of the heap -/

namespace Heap

/-- A function of a script is behind a reference. -/
def Holds (h : Heap) (c : Closure) : Prop :=
  ∃ r, h.function r = .closure c

/-- Every function of a script in the heap `k` is in the heap `h` already. -/
def Keeps (h k : Heap) : Prop :=
  ∀ c, k.Holds c → h.Holds c

lemma Keeps.refl (h : Heap) : h.Keeps h := fun _ => id

lemma Keeps.trans {h k l : Heap} (hk : h.Keeps k) (kl : k.Keeps l) : h.Keeps l :=
  fun c hc => hk c (kl c hc)

lemma Keeps.of_functions_eq {h k : Heap} (e : k.functions = h.functions) : h.Keeps k := by
  rintro c ⟨r, hr⟩
  exact ⟨r, by rwa [Heap.function, e] at hr⟩

lemma function_newFunction (h : Heap) (f r) :
    (h.newFunction f).2.function r = if r = h.functions.size then f else h.function r := by
  simp only [newFunction, function, Array.getD_eq_getD_getElem?, Array.getElem?_push]
  split <;> rfl

lemma keeps_copy (h : Heap) (r) : h.Keeps (h.newFunction (h.function r)).2 := by
  rintro c ⟨s, hs⟩
  rw [function_newFunction] at hs
  split at hs
  · exact ⟨r, hs⟩
  · exact ⟨s, hs⟩

end Heap

/-- The heap that an operation leaves behind. -/
def HeapM.left {α : Type} : EStateM.Result Fault Heap α → Heap
  | .ok _ h | .error _ h => h

/-- Changes of the heap that may come one after the other and that conversion may make. -/
class Heap.Course (S : Heap → Heap → Prop) : Prop where
  refl : ∀ h, S h h
  trans : ∀ {h k l}, S h k → S k l → S h l
  newArray : ∀ h items, S h (newArray h items).2
  newRecord : ∀ h fields, S h (newRecord h fields).2
  copyFunction : ∀ h r, S h (newFunction h (h.function r)).2

instance : Heap.Course Heap.Keeps where
  refl := .refl
  trans := .trans
  newArray _ _ := .of_functions_eq rfl
  newRecord _ _ := .of_functions_eq rfl
  copyFunction := Heap.keeps_copy

/-- An operation that is decent and changes the heap as `S` says, however it ends. -/
def HeapM.Moves {α : Type} (S : Heap → Heap → Prop) (x : HeapM α) : Prop :=
  ∀ h, S h (HeapM.left (x h)) ∧ ∀ f k, x h = .error f k → f.Ordinary

/-- An operation that is decent and makes no functions of scripts. -/
abbrev HeapM.Tame {α : Type} (x : HeapM α) : Prop :=
  x.Moves Heap.Keeps

open Heap

namespace HeapM.Moves

variable {α β : Type} {S : Heap → Heap → Prop}

lemma make {f : Heap → α × Heap} (hf : ∀ h, S h (f h).2) : Moves S (HeapM.make f) :=
  fun h => ⟨hf h, fun _ _ hg => by cases hg⟩

lemma modifying {f : Heap → Heap} (hf : ∀ h, S h (f h)) : Moves S (modify f : HeapM PUnit) :=
  fun h => ⟨hf h, fun _ _ hg => by cases hg⟩

variable [Course S]

lemma pure (a : α) : Moves S (Pure.pure a) :=
  fun h => ⟨Course.refl h, fun _ _ hf => by cases hf⟩

lemma throw {f : Fault} (hf : f.Ordinary) : Moves S (MonadExcept.throw f : HeapM α) :=
  fun h => ⟨Course.refl h, fun _ _ hg => by cases hg; exact hf⟩

lemma bind {x : HeapM α} {g : α → HeapM β} (hx : x.Moves S) (hg : ∀ a, (g a).Moves S) :
    Moves S (x >>= g) := by
  intro h
  obtain ⟨hk, hf⟩ := hx h
  change S h (left (EStateM.bind x g h)) ∧ ∀ f k, EStateM.bind x g h = .error f k → _
  unfold EStateM.bind
  cases hr : x h with
  | ok a k =>
    rw [hr] at hk
    exact ⟨Course.trans hk (hg a k).1, (hg a k).2⟩
  | error f k =>
    rw [hr] at hk
    exact ⟨hk, fun _ _ hg => by cases hg; exact hf _ _ hr⟩

lemma mapM {g : α → HeapM β} (hg : ∀ a, (g a).Moves S) (l : List α) : Moves S (l.mapM g) := by
  induction l with
  | nil => exact .pure []
  | cons a l ih =>
    rw [List.mapM_cons]
    exact (hg a).bind fun b => ih.bind fun bs => .pure (b :: bs)

lemma look {f : Heap → Except Fault α} (hf : ∀ h, Decent (f h)) : Moves S (HeapM.look f) := by
  intro h
  unfold HeapM.look
  cases hr : f h with
  | ok a => exact ⟨Course.refl h, fun _ _ hg => by cases hg⟩
  | error e => exact ⟨Course.refl h, fun _ _ hg => by cases hg; exact hf h e hr⟩

lemma get : Moves S (MonadStateOf.get : HeapM Heap) :=
  fun h => ⟨Course.refl h, fun _ _ hg => by cases hg⟩

end HeapM.Moves

open HeapM

section

variable {S : Heap → Heap → Prop} [Course S]

lemma HeapM.moves_copied {part : Value → HeapM Value} (hp : ∀ v, (part v).Moves S) (c) :
    (copied part c).Moves S := by
  cases c with
  | array r =>
    refine Moves.get.bind fun h => (Moves.mapM hp _).bind fun items => ?_
    exact (Moves.make fun h => Course.newArray h _).bind fun r => .pure _
  | record r =>
    have field (f : Key × Value) : (copiedField part f).Moves S := by
      unfold copiedField
      split
      · exact (hp f.2).bind fun _ => .pure _
      · exact .throw trivial
    refine Moves.get.bind fun h => (Moves.mapM field _).bind fun fields => ?_
    exact (Moves.make fun h => Course.newRecord h _).bind fun r => .pure _

lemma Value.moves_convertWith {copy : Container → HeapM Value} (hc : ∀ c, (copy c).Moves S)
    (v : Value) : (v.convertWith copy).Moves S := by
  unfold Value.convertWith
  split
  · exact .pure _
  · split
    · exact .pure _
    · exact hc _
  · exact hc _
  · split
    · exact .pure _
    · exact .throw trivial
  · exact (Moves.make fun h => Course.copyFunction h _).bind fun _ => .pure _
  · exact .throw trivial

/-- **Conversion only adds to the heap**, and is decent. -/
theorem Value.moves_convert (v : Value) : v.convert.Moves S := by
  have within (depth : Nat) : ∀ v : Value, (v.convertWithin depth).Moves S := by
    induction depth with
    | zero =>
      refine fun v => v.moves_convertWith fun _ => ?_
      exact .throw trivial
    | succ depth ih =>
      exact fun v => v.moves_convertWith fun c => (moves_copied ih c).bind fun _ => .pure _
  exact Moves.get.bind fun _ => within _ v

end

lemma Value.tame_convert (v : Value) : Tame v.convert :=
  v.moves_convert

lemma Value.tame_setIndex (container index v : Value) : Tame (container.setIndex index v) := by
  refine (Moves.look fun _ => container.decent_kind).bind fun kind => ?_
  split
  · refine v.tame_convert.bind fun stored =>
      (Moves.look fun h => Value.decent_position h _ _ _).bind fun i => ?_
    refine Moves.bind (Moves.modifying fun h => ?_) fun _ => .pure _
    exact .of_functions_eq rfl
  · exact .throw trivial
  · exact .throw trivial

lemma Value.tame_setField (container key v : Value) : Tame (container.setField key v) := by
  refine (Moves.look fun _ => container.decent_kind).bind fun kind =>
    (Moves.look fun h => Value.decent_fieldName h key).bind fun name => ?_
  split
  · refine v.tame_convert.bind fun stored => ?_
    refine Moves.bind (Moves.modifying fun h => ?_) fun _ => .pure _
    exact .of_functions_eq rfl
  · exact .throw trivial

end DynScript

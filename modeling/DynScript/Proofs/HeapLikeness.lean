import DynScript.Proofs.Agreement
import DynScript.Proofs.Likeness
import Mathlib.Order.Basic

/-!
# Like values and heaps

Two heaps are alike when they hold like functions and the same things otherwise, except perhaps for the
boxes around values.

Main declarations: `Heap.Like`, `HeapM.like_convert`.
-/

namespace DynScript

open List Value

/-! ### Values -/

lemma Constant.isScalar_datum (c : Constant) : c.datum.isScalar := by
  cases c <;> rfl

lemma Datum.container?_of_isScalar {d : Datum} (hd : d.isScalar) : d.container? = none := by
  cases d <;> first | rfl | cases hd

namespace Value

/-- Like boxes, whose container is in the set `A`. -/
inductive Boxed (l : Prop) (A : Container → Prop) : Value → Value → Prop where
  | mk (d : Datum) {m m' : Nat} (hm : l ∧ d.isScalar ∨ m = m')
    (hd : ∀ c, d.container? = some c → A c) : Boxed l A (.boxed d m) (.boxed d m')

/-- Like values in the hands of a script: boxes, or the same scalar with or without a box. -/
inductive Held (l : Prop) (A : Container → Prop) : Value → Value → Prop where
  | boxed {v v'} (h : Boxed l A v v') : Held l A v v'
  | scalar {d : Datum} (hd : d.isScalar) {v v' : Value} (hv : v.payload = .raw d)
    (hv' : v'.payload = .raw d) (h : l ∨ v = v') : Held l A v v'

/-- Like values in the hands of the host: boxes, or one and the same value. -/
inductive Hosted (l : Prop) (A : Container → Prop) : Value → Value → Prop where
  | boxed {v v'} (h : Boxed l A v v') : Hosted l A v v'
  | same {v : Value} (h : v.isBoxed = false) : Hosted l A v v

/-- Like values that are passed on, in a container or by the host. -/
def Passed (l : Prop) (A : Container → Prop) (v v' : Value) : Prop :=
  Held l A v v' ∨ Hosted l A v v'

variable {l : Prop} {A B : Container → Prop} {v v' : Value}

lemma Boxed.mono (hA : A ≤ B) (h : Boxed l A v v') : Boxed l B v v' := by
  cases h with
  | mk d hm hd => exact .mk d hm fun c hc => hA c (hd c hc)

lemma Held.mono (hA : A ≤ B) (h : Held l A v v') : Held l B v v' := by
  cases h with
  | boxed h => exact .boxed (h.mono hA)
  | scalar hd hv hv' h => exact .scalar hd hv hv' h

lemma Hosted.mono (hA : A ≤ B) (h : Hosted l A v v') : Hosted l B v v' := by
  cases h with
  | boxed h => exact .boxed (h.mono hA)
  | same h => exact .same h

lemma Passed.mono (hA : A ≤ B) (h : Passed l A v v') : Passed l B v v' :=
  h.imp (.mono hA) (.mono hA)

lemma Boxed.payload (h : Boxed l A v v') : v.payload = v'.payload := by
  cases h
  rfl

lemma Held.payload (h : Held l A v v') : v.payload = v'.payload := by
  cases h with
  | boxed h => exact h.payload
  | scalar _ hv hv' _ => rw [hv, hv']

lemma Hosted.payload (h : Hosted l A v v') : v.payload = v'.payload := by
  cases h with
  | boxed h => exact h.payload
  | same h => rfl

lemma Passed.payload (h : Passed l A v v') : v.payload = v'.payload :=
  h.elim Held.payload Hosted.payload

lemma Hosted.of_isBoxed (h : Hosted l A v v') (hv : v.isBoxed) : Boxed l A v v' := by
  cases h with
  | boxed h => exact h
  | same h => simp [h] at hv

lemma Held.isBoxed (h : Held l A v v') : l ∨ v.isBoxed = v'.isBoxed := by
  cases h with
  | boxed h =>
    cases h
    exact .inr rfl
  | scalar _ _ _ h => exact h.imp_right fun e => by rw [e]

lemma payload_unbox (v : Value) : v.unbox.payload = v.payload := by
  cases v with
  | boxed d mark =>
    dsimp only [unbox]
    split <;> rfl
  | _ => rfl

lemma Held.unbox (h : Held l A v v') :
    Held l A v.unbox v'.unbox ∧ (l → Held l A v.unbox v' ∧ Held l A v v'.unbox) := by
  cases h with
  | boxed h =>
    cases h with
    | mk d hm hd =>
      have same := Held.boxed (.mk d hm hd)
      unfold unbox
      dsimp only
      split
      · rename_i hs
        exact ⟨.scalar hs rfl rfl (.inr rfl), fun hl =>
          ⟨.scalar hs rfl rfl (.inl hl), .scalar hs rfl rfl (.inl hl)⟩⟩
      · exact ⟨same, fun _ => ⟨same, same⟩⟩
  | scalar hd hv hv' h =>
    have left := (payload_unbox v).trans hv
    have right := (payload_unbox v').trans hv'
    exact ⟨.scalar hd left right (h.imp_right fun e => by rw [e]), fun hl =>
      ⟨.scalar hd left hv' (.inl hl), .scalar hd hv right (.inl hl)⟩⟩

lemma Boxed.null : Boxed l A .null .null :=
  .mk _ (.inr rfl) nofun

lemma Held.nothing : Held l A .nothing .nothing :=
  .scalar rfl rfl rfl (.inr rfl)

lemma payload_wrap (b : Bool) (d) : (wrap b d).payload = .raw d := by
  cases b <;> rfl

lemma Held.wrap {d : Datum} (hd : d.isScalar) {b b' : Bool} (hb : l ∨ b = b') :
    Held l A (wrap b d) (wrap b' d) :=
  .scalar hd (payload_wrap b d) (payload_wrap b' d) (hb.imp_right fun e => by rw [e])

lemma Held.container (h : Held l A v v') {d} (hd : v.datum? = some d) {c}
    (hc : d.container? = some c) : A c := by
  cases h with
  | boxed h =>
    cases h with
    | mk e _ he =>
      cases hd
      exact he c hc
  | scalar he hv hv' _ =>
    rw [← datum?_payload, hv] at hd
    cases hd
    rw [Datum.container?_of_isScalar he] at hc
    cases hc

end Value

/-! ### Functions -/

section

variable (w : Likeness)

/-- Like code of functions. -/
structure FunctionCode.Like (c c' : FunctionCode) : Prop where
  name : c.name = c'.name
  params : Forall₂ (Slot.Like w) c.params c'.params
  body : c.body.Like w c'.body
  exit : c.exit.Like w c'.exit
  self : Option.Rel (Slot.Like w) c.self c'.self

/-- Like functions, made in the same frame by the same interpreter. -/
inductive Callable.Like : Callable → Callable → Prop where
  | closure {code code' : FunctionCode} (frame owner : Ref) (h : code.Like w code') :
    Callable.Like (.closure ⟨code, frame, owner⟩) (.closure ⟨code', frame, owner⟩)
  | native {f : NativeFunction} (h : f.Allowed w) : Callable.Like (.native f) (.native f)

end

namespace Callable.Like

variable {w w' : Likeness} {c c' : Callable}

lemma mono (hw : w.Le w') (h : c.Like w c') : c.Like w' c' := by
  cases h with
  | closure frame owner h =>
    exact .closure frame owner ⟨h.name, h.params.imp fun _ _ => .mono hw, h.body.mono hw,
      h.exit.mono hw, rel_of_mem h.self fun _ _ _ => .mono hw⟩
  | native h => exact .native (h.mono hw)

lemma name (h : c.Like w c') : c.name = c'.name := by
  cases h with
  | closure _ _ h => exact h.name
  | native _ => rfl

lemma arity (h : c.Like w c') : c.arity = c'.arity := by
  cases h with
  | closure _ _ h => simp [Callable.arity, h.params.length_eq]
  | native _ => rfl

lemma variadic (h : c.Like w c') : c.variadic = c'.variadic := by
  cases h <;> rfl

lemma text (h : c.Like w c') : c.text = c'.text := by
  rw [Callable.text, Callable.text, h.name, h.arity]

end Callable.Like

/-! ### Heaps -/

/-- A container is in the heap. -/
def Heap.Has (h : Heap) : Container → Prop
  | .array r => r < h.arrays.size
  | .record r => r < h.records.size

/-- Like heaps, in which the containers of the set `A` are those of the language. -/
structure Heap.Like (w : Likeness) (l : Prop) (A : Container → Prop) (h h' : Heap) : Prop where
  arrays_size : h.arrays.size = h'.arrays.size
  records_size : h.records.size = h'.records.size
  functions_size : h.functions.size = h'.functions.size
  has : ∀ c, A c → h.Has c
  arrays : ∀ r, Forall₂ (Value.Hosted l A) (h.array r).toList (h'.array r).toList
  items : ∀ r, A (.array r) → ∀ v ∈ (h.array r).toList, v.isBoxed
  fields : ∀ r, Forall₂ (fun f f' => f.1 = f'.1 ∧ f.2.Hosted l A f'.2)
    (h.record r).fields (h'.record r).fields
  entries : ∀ r, A (.record r) → ∀ f ∈ (h.record r).fields, f.2.isBoxed
  functions : ∀ r, (h.function r).Like w (h'.function r)

lemma exists_left_of_forall₂ {α β : Type} {R : α → β → Prop} {l l'} (h : Forall₂ R l l') {b : β}
    (hb : b ∈ l') : ∃ a ∈ l, R a b := by
  induction h with
  | nil => cases hb
  | cons hab _ ih =>
    rcases mem_cons.1 hb with rfl | hb
    · exact ⟨_, mem_cons_self, hab⟩
    · obtain ⟨a, ha, hr⟩ := ih hb
      exact ⟨a, mem_cons_of_mem _ ha, hr⟩

lemma exists_of_forall₂ {α β : Type} {R : α → β → Prop} {l l'} (h : Forall₂ R l l') {a : α}
    (ha : a ∈ l) : ∃ b, R a b :=
  (exists_left_of_forall₂ h.flip ha).imp fun _ => And.right

lemma isEmpty_eq_of_forall₂ {α β : Type} {R : α → β → Prop} {l l'} (h : Forall₂ R l l') :
    l.isEmpty = l'.isEmpty := by
  cases h <;> rfl

lemma forall₂_set {α β : Type} {R : α → β → Prop} {l l'} (h : Forall₂ R l l') (i : Nat) {a : α}
    {b : β} (hab : R a b) : Forall₂ R (l.set i a) (l'.set i b) := by
  induction h generalizing i with
  | nil => exact .nil
  | cons hcd h ih =>
    cases i with
    | zero => exact .cons hab h
    | succ i => exact .cons hcd (ih i)

lemma Value.Boxed.isBoxed {l : Prop} {A : Container → Prop} {v v' : Value}
    (h : v.Boxed l A v') : v.isBoxed := by
  cases h
  rfl

lemma isBoxed_of_forall₂ {l : Prop} {A : Container → Prop} {vs vs'}
    (h : Forall₂ (Value.Boxed l A) vs vs') : ∀ v ∈ vs, v.isBoxed :=
  fun _ hv => (exists_of_forall₂ h hv).elim fun _ hb => hb.isBoxed

lemma payloads_eq {l : Prop} {A : Container → Prop} {vs vs'} (h : Forall₂ (Value.Hosted l A) vs vs') :
    vs.map payload = vs'.map payload := by
  induction h with
  | nil => rfl
  | cons h _ ih => rw [map_cons, map_cons, h.payload, ih]

lemma map_payload_eq {κ : Type} {l : Prop} {A : Container → Prop} {fs fs' : List (κ × Value)}
    (h : Forall₂ (fun f f' => f.1 = f'.1 ∧ f.2.Hosted l A f'.2) fs fs') :
    fs.map (Prod.map id payload) = fs'.map (Prod.map id payload) := by
  induction h with
  | nil => rfl
  | cons h _ ih => simp [Prod.map, h.1, h.2.payload, ih]

/-! ### Records -/

section

variable {r r' : Record} {name : String}

lemma rel_lookup {R : Value → Value → Prop} {fs fs' : List (Key × Value)}
    (h : Forall₂ (fun f f' => f.1 = f'.1 ∧ R f.2 f'.2) fs fs') (key) :
    Option.Rel R (fs.lookup key) (fs'.lookup key) := by
  induction h with
  | nil => exact .none
  | @cons f f' fs fs' h _ ih =>
    obtain ⟨n, v⟩ := f
    obtain ⟨n', v'⟩ := f'
    obtain ⟨rfl, hv⟩ := h
    simp only [lookup_cons]
    split
    · exact .some hv
    · exact ih

lemma mem_of_lookup {κ α : Type} [BEq κ] [LawfulBEq κ] {fs : List (κ × α)} {key : κ} {v : α}
    (h : fs.lookup key = some v) : (key, v) ∈ fs := by
  obtain ⟨before, after, rfl, _⟩ := lookup_eq_some_iff.1 h
  simp

lemma isSome_eq_of_rel {α β : Type} {R : α → β → Prop} {o o'} (h : Option.Rel R o o') :
    o.isSome = o'.isSome := by
  cases h <;> rfl

lemma forall₂_put {R : Value → Value → Prop} {v v'}
    (h : Forall₂ (fun f f' => f.1 = f'.1 ∧ R f.2 f'.2) r.fields r'.fields) (name) (hv : R v v') :
    Forall₂ (fun f f' => f.1 = f'.1 ∧ R f.2 f'.2)
      (r.put name v).fields (r'.put name v').fields := by
  have hs : (r.get? name).isSome = (r'.get? name).isSome := isSome_eq_of_rel (rel_lookup h _)
  unfold Record.put
  rw [← hs]
  split
  · rw [forall₂_map_left_iff, forall₂_map_right_iff]
    refine h.imp fun f f' hf => ?_
    rw [← hf.1]
    split
    · exact ⟨rfl, hv⟩
    · exact hf
  · exact rel_append h (.cons ⟨rfl, hv⟩ .nil)

lemma mem_put {v f} (h : f ∈ (r.put name v).fields) : f ∈ r.fields ∨ f = (.name name, v) := by
  unfold Record.put at h
  split at h
  · obtain ⟨g, hg, hf⟩ := mem_map.1 h
    split at hf
    · exact .inr hf.symm
    · exact .inl (hf ▸ hg)
  · simpa using h

end

namespace Heap

variable {w w' : Likeness} {l : Prop} {A B : Container → Prop} {h h' : Heap}

lemma Like.agrees (hh : Like w l A h h') : h.Agrees h' where
  containers := by rw [containers, containers, hh.arrays_size, hh.records_size]
  arrays r := payloads_eq (hh.arrays r)
  fields r := map_payload_eq (hh.fields r)
  functions r := (hh.functions r).text

lemma Like.mono (hw : w.Le w') (hh : Like w l A h h') : Like w' l A h h' :=
  { hh with functions := fun r => (hh.functions r).mono hw }

/-! ### Changes of heaps -/

lemma array_newArray (h : Heap) (items r) :
    (h.newArray items).2.array r = if r = h.arrays.size then items else h.array r := by
  simp only [newArray, array, Array.getD_eq_getD_getElem?, Array.getElem?_push]
  split <;> rfl

lemma record_newRecord (h : Heap) (x r) :
    (h.newRecord x).2.record r = if r = h.records.size then x else h.record r := by
  simp only [newRecord, record, Array.getD_eq_getD_getElem?, Array.getElem?_push]
  split <;> rfl

lemma array_setItem (h : Heap) (s) (i : Nat) (v r) :
    (h.setItem s i v).array r = if r = s then (h.array s).setIfInBounds i v else h.array r := by
  simp only [setItem, array, Array.getD_eq_getD_getElem?, Array.getElem?_modify]
  by_cases hr : r = s
  · subst hr
    rw [if_pos rfl, if_pos rfl]
    cases h.arrays[r]? <;> simp
  · rw [if_neg (Ne.symm hr), if_neg hr]

lemma record_setField (h : Heap) (s name v) (hs : s < h.records.size) (r) :
    (h.setField s name v).record r = if r = s then (h.record s).put name v else h.record r := by
  simp only [setField, record, Array.getD_eq_getD_getElem?, Array.getElem?_modify]
  by_cases hr : r = s
  · subst hr
    simp [hs]
  · rw [if_neg (Ne.symm hr), if_neg hr]

/-- The containers of `A` and one more. -/
def grown (A : Container → Prop) (c : Container) : Container → Prop :=
  fun d => A d ∨ d = c

lemma le_grown (A : Container → Prop) (c) : A ≤ grown A c :=
  fun _ => Or.inl

section

variable (hh : Like w l A h h')
include hh

lemma Like.newArray {items items'} (hi : Forall₂ (Value.Boxed l A) items items') :
    Like w l (grown A (.array h.arrays.size)) (h.newArray items.toArray).2
      (h'.newArray items'.toArray).2 := by
  have hA := le_grown A (.array h.arrays.size)
  refine { hh with
    arrays_size := ?_, has := ?_, arrays := fun r => ?_, items := fun r hr => ?_
    fields := fun r => (hh.fields r).imp fun _ _ k => ⟨k.1, k.2.mono hA⟩
    entries := fun r hr => hh.entries r (hr.resolve_right nofun) }
  · simp [Heap.newArray, hh.arrays_size]
  · rintro c (hc | rfl)
    · have := hh.has c hc
      cases c with
      | array r => exact Nat.lt_of_lt_of_le this (by simp [Heap.newArray])
      | record r => exact this
    · simp [Has, Heap.newArray]
  · rw [array_newArray, array_newArray, ← hh.arrays_size]
    split
    · exact hi.imp fun _ _ k => .boxed (k.mono hA)
    · exact (hh.arrays r).imp fun _ _ => .mono hA
  · rw [array_newArray]
    split
    · exact isBoxed_of_forall₂ hi
    · rename_i hne
      exact hh.items r (hr.resolve_right fun e => hne (by cases e; rfl))

lemma Like.newRecord {fields fields'}
    (hi : Forall₂ (fun f f' => f.1 = f'.1 ∧ f.2.Boxed l A f'.2) fields fields') :
    Like w l (grown A (.record h.records.size)) (h.newRecord ⟨fields⟩).2
      (h'.newRecord ⟨fields'⟩).2 := by
  have hA := le_grown A (.record h.records.size)
  refine { hh with
    records_size := ?_, has := ?_, fields := fun r => ?_, entries := fun r hr => ?_
    arrays := fun r => (hh.arrays r).imp fun _ _ => .mono hA
    items := fun r hr => hh.items r (hr.resolve_right nofun) }
  · simp [Heap.newRecord, hh.records_size]
  · rintro c (hc | rfl)
    · have := hh.has c hc
      cases c with
      | array r => exact this
      | record r => exact Nat.lt_of_lt_of_le this (by simp [Heap.newRecord])
    · simp [Has, Heap.newRecord]
  · rw [record_newRecord, record_newRecord, ← hh.records_size]
    split
    · exact hi.imp fun _ _ k => ⟨k.1, .boxed (k.2.mono hA)⟩
    · exact (hh.fields r).imp fun _ _ k => ⟨k.1, k.2.mono hA⟩
  · rw [record_newRecord]
    split
    · exact fun f hf => (exists_of_forall₂ hi hf).elim fun _ hb => hb.2.isBoxed
    · rename_i hne
      exact hh.entries r (hr.resolve_right fun e => hne (by cases e; rfl))

lemma Like.newFunction {c c' : Callable} (hc : c.Like w c') :
    Like w l A (h.newFunction c).2 (h'.newFunction c').2 :=
  { hh with
    functions_size := by simp [Heap.newFunction, hh.functions_size]
    functions := fun r => by
      have := hh.functions r
      simp only [Heap.newFunction, function, Array.getD_eq_getD_getElem?, Array.getElem?_push,
        hh.functions_size] at this ⊢
      split
      · exact hc
      · exact this }

lemma Like.setItem {v v' : Value} (hv : v.Boxed l A v') (s) (i : Nat) :
    Like w l A (h.setItem s i v) (h'.setItem s i v') := by
  refine { hh with
    arrays_size := by simp [Heap.setItem, hh.arrays_size]
    has := fun c hc => ?_, arrays := fun r => ?_, items := fun r hr => ?_ }
  · have := hh.has c hc
    cases c with
    | array r => simpa [Has, Heap.setItem] using this
    | record r => exact this
  · rw [array_setItem, array_setItem]
    split
    · simp only [Array.toList_setIfInBounds]
      exact forall₂_set (hh.arrays s) i (.boxed hv)
    · exact hh.arrays r
  · rw [array_setItem]
    split
    · subst_vars
      intro u hu
      rw [Array.toList_setIfInBounds] at hu
      rcases mem_or_eq_of_mem_set hu with hu | rfl
      · exact hh.items r hr u hu
      · exact hv.isBoxed
    · exact hh.items r hr

lemma Like.setField {v v' : Value} (hv : v.Boxed l A v') {s} (hs : A (.record s)) (name) :
    Like w l A (h.setField s name v) (h'.setField s name v') := by
  have hin : s < h.records.size := hh.has _ hs
  have hin' : s < h'.records.size := hh.records_size ▸ hin
  refine { hh with
    records_size := by simp [Heap.setField, hh.records_size]
    has := fun c hc => ?_, fields := fun r => ?_, entries := fun r hr => ?_ }
  · have := hh.has c hc
    cases c with
    | array r => exact this
    | record r => simpa [Has, Heap.setField] using this
  · rw [record_setField _ _ _ _ hin, record_setField _ _ _ _ hin']
    split
    · exact forall₂_put (hh.fields s) name (.boxed hv)
    · exact hh.fields r
  · rw [record_setField _ _ _ _ hin]
    split
    · subst_vars
      intro f hf
      rcases mem_put hf with hf | rfl
      · exact hh.entries r hr f hf
      · exact hv.isBoxed
    · exact hh.entries r hr

end

end Heap

/-! ### Operations on heaps -/

namespace HeapM

section

variable (w : Likeness) (l : Prop) {α β γ δ : Type}

/-- Like outcomes of operations on heaps: like results, or the same fault, in like heaps with
perhaps more containers of the language. -/
inductive LikeResult (R : (Container → Prop) → α → β → Prop) (A : Container → Prop) :
    EStateM.Result Fault Heap α → EStateM.Result Fault Heap β → Prop where
  | ok {B : Container → Prop} (hA : A ≤ B) {h h' : Heap} (hh : h.Like w l B h') {a : α} {b : β}
    (ha : R B a b) : LikeResult R A (.ok a h) (.ok b h')
  | error {B : Container → Prop} (hA : A ≤ B) {h h' : Heap} (hh : h.Like w l B h') (e : Fault) :
    LikeResult R A (.error e h) (.error e h')

lemma LikeResult.widen {w} {l : Prop} {R : (Container → Prop) → α → β → Prop}
    {A B : Container → Prop} (hA : A ≤ B) {r r'} (h : LikeResult w l R B r r') :
    LikeResult w l R A r r' := by
  cases h with
  | ok hB hh ha => exact .ok (hA.trans hB) hh ha
  | error hB hh e => exact .error (hA.trans hB) hh e

/-- Operations that do the like to like heaps. -/
def Like (R : (Container → Prop) → α → β → Prop) (A : Container → Prop) (x : HeapM α)
    (y : HeapM β) : Prop :=
  ∀ B : Container → Prop, A ≤ B → ∀ h h' : Heap, h.Like w l B h' →
    LikeResult w l R B (x h) (y h')

end

namespace Like

variable {w : Likeness} {l : Prop} {α β γ δ : Type} {R : (Container → Prop) → α → β → Prop}
  {S : (Container → Prop) → γ → δ → Prop} {A B : Container → Prop}

lemma pure {a : α} {b : β} (h : ∀ B, A ≤ B → R B a b) :
    Like w l R A (Pure.pure a) (Pure.pure b) :=
  fun B hB _ _ hh => .ok le_rfl hh (h B hB)

lemma throw (e) : Like w l R A (MonadExcept.throw e) (MonadExcept.throw e) :=
  fun _ _ _ _ hh => .error le_rfl hh e

lemma mono (hA : A ≤ B) {x y} (h : Like w l R A x y) : Like w l R B x y :=
  fun C hC _ _ hh => h C (hA.trans hC) _ _ hh

lemma bind {x y} {f : α → HeapM γ} {g : β → HeapM δ} (h : Like w l R A x y)
    (k : ∀ B, A ≤ B → ∀ a b, R B a b → Like w l S B (f a) (g b)) :
    Like w l S A (x >>= f) (y >>= g) := by
  intro B hB m m' hm
  change LikeResult w l S B (EStateM.bind x f m) (EStateM.bind y g m')
  have hr := h B hB m m' hm
  unfold EStateM.bind
  generalize x m = r at hr ⊢
  generalize y m' = r' at hr ⊢
  cases hr with
  | ok hC hh ha => exact (k _ (hB.trans hC) _ _ ha _ le_rfl _ _ hh).widen hC
  | error hC hh e => exact .error hC hh e

lemma mapM {S : (Container → Prop) → γ → δ → Prop} {f : α → HeapM γ} {g : β → HeapM δ}
    (hS : ∀ {B C c d}, B ≤ C → S B c d → S C c d) {as bs}
    (h : Forall₂ (fun a b => Like w l S A (f a) (g b)) as bs) :
    Like w l (fun B => Forall₂ (S B)) A (as.mapM f) (bs.mapM g) := by
  induction h with
  | nil => exact .pure fun _ _ => .nil
  | cons hab _ ih =>
    rw [mapM_cons, mapM_cons]
    refine hab.bind fun B hB c d hcd => (ih.mono hB).bind fun C hC cs ds hcs => ?_
    exact .pure fun D hD => .cons (hS (hC.trans hD) hcd) (hcs.imp fun _ _ => hS hD)

lemma look {f g : Heap → Except Fault α} (h : ∀ {h h' : Heap}, h.Agrees h' → f h = g h') :
    Like w l (fun _ => Eq) A (HeapM.look f) (HeapM.look g) := by
  intro B _ m m' hm
  unfold HeapM.look
  rw [h hm.agrees]
  split
  · exact .ok le_rfl hm rfl
  · exact .error le_rfl hm _

lemma get : Like w l (fun B (h h' : Heap) => h.containers = h'.containers ∧
    (∀ r, Forall₂ (Value.Hosted l B) (h.array r).toList (h'.array r).toList) ∧
    ∀ r, Forall₂ (fun f f' => f.1 = f'.1 ∧ f.2.Hosted l B f'.2) (h.record r).fields
      (h'.record r).fields) A MonadState.get MonadState.get := by
  intro B _ m m' hm
  exact .ok le_rfl hm ⟨hm.agrees.containers, hm.arrays, hm.fields⟩

end Like

/-! ### Conversion -/

variable {w : Likeness} {l : Prop} {A B : Container → Prop}

lemma like_newArray {items items'} (h : Forall₂ (Value.Boxed l A) items items') :
    Like w l (fun B r r' => r = r' ∧ B (.array r)) A (HeapM.make (·.newArray items.toArray))
      (HeapM.make (·.newArray items'.toArray)) := by
  intro B hB m m' hm
  refine .ok (Heap.le_grown B _) (hm.newArray (h.imp fun _ _ => .mono hB)) ⟨?_, .inr rfl⟩
  exact hm.arrays_size

lemma like_newRecord {fields fields'}
    (h : Forall₂ (fun f f' => f.1 = f'.1 ∧ f.2.Boxed l A f'.2) fields fields') :
    Like w l (fun B r r' => r = r' ∧ B (.record r)) A (HeapM.make (·.newRecord ⟨fields⟩))
      (HeapM.make (·.newRecord ⟨fields'⟩)) := by
  intro B hB m m' hm
  refine .ok (Heap.le_grown B _) (hm.newRecord (h.imp fun _ _ k => ⟨k.1, k.2.mono hB⟩)) ⟨?_, .inr rfl⟩
  exact hm.records_size

lemma like_newFunction {c c' : Callable} (h : c.Like w c') :
    Like w l (fun _ => Eq) A (HeapM.make (·.newFunction c)) (HeapM.make (·.newFunction c')) :=
  fun _ _ _ _ hm => .ok le_rfl (hm.newFunction h) hm.functions_size

lemma like_copied {part part' : Value → HeapM Value}
    (hp : ∀ B, A ≤ B → ∀ v v',
    Value.Hosted l B v v' → Like w l (fun B => Value.Boxed l B) B (part v) (part' v')) (c) :
    Like w l (fun B d d' => d = d' ∧ ∀ c, d.container? = some c → B c) A
      (HeapM.copied part c) (HeapM.copied part' c) := by
  cases c with
  | array r =>
    refine Like.get.bind fun B hB h h' hh => ?_
    refine (Like.mapM .mono ((hh.2.1 r).imp fun v v' hv => hp B hB v v' hv)).bind
      fun C hC items items' hi => (like_newArray hi).bind fun D hD s s' hs => ?_
    obtain ⟨rfl, hs⟩ := hs
    refine .pure fun E hE => ⟨rfl, fun c hc => ?_⟩
    cases hc
    exact hE _ hs
  | record r =>
    refine Like.get.bind fun B hB h h' hh => ?_
    have part : Forall₂ (fun f f' => Like w l
        (fun B (f f' : Key × Value) => f.1 = f'.1 ∧ f.2.Boxed l B f'.2) B
        (copiedField part f) (copiedField part' f')) (h.record r).fields (h'.record r).fields := by
      refine (hh.2.2 r).imp fun f f' k => ?_
      unfold copiedField
      rw [← k.1]
      split
      · exact (hp B hB _ _ k.2).bind fun C _ v v' hv => .pure fun D hD => ⟨rfl, hv.mono hD⟩
      · exact .throw _
    refine (Like.mapM (fun hBC hv => ⟨hv.1, hv.2.mono hBC⟩) part).bind
      fun C hC fields fields' hi => (like_newRecord hi).bind fun D hD s s' hs => ?_
    obtain ⟨rfl, hs⟩ := hs
    refine .pure fun E hE => ⟨rfl, fun c hc => ?_⟩
    cases hc
    exact hE _ hs

variable {v v' : Value}

lemma like_convertWith {copy copy' : Container → HeapM Value}
    (hc : ∀ c, Like w l (fun B => Value.Boxed l B) A (copy c) (copy' c))
    (hv : v.Hosted l A v') :
    Like w l (fun B => Value.Boxed l B) A (v.convertWith copy) (v'.convertWith copy') := by
  cases hv with
  | boxed hv =>
    cases hv with
    | mk d hm hd => exact .pure fun B hB => .mk d hm fun c hc => hB c (hd c hc)
  | same hv =>
    cases v with
    | boxed d m => cases hv
    | raw d =>
      cases h : d.container? with
      | none =>
        simp only [convertWith, h]
        exact .pure fun B _ => .mk d (.inr rfl) fun c hc => by simp [h] at hc
      | some c =>
        simp only [convertWith, h]
        exact hc c
    | alien a =>
      cases a with
      | tuple r => exact hc (.array r)
      | integer n =>
        simp only [convertWith]
        split
        · exact .pure fun B _ => .mk _ (.inr rfl) nofun
        · exact .throw _
      | function r type =>
        intro B hB m m' hm
        refine .ok le_rfl (hm.newFunction (hm.functions r)) ?_
        rw [hm.functions_size]
        exact .mk _ (.inr rfl) nofun
      | object type => exact .throw _

lemma like_convertWithin (depth : Nat) (hv : v.Hosted l A v') :
    Like w l (fun B => Value.Boxed l B) A (v.convertWithin depth) (v'.convertWithin depth) := by
  induction depth generalizing v v' A with
  | zero => exact like_convertWith (fun _ => .throw _) hv
  | succ depth ih =>
    refine like_convertWith (fun c => ?_) hv
    refine (like_copied (fun B _ v v' hv => ih hv) c).bind fun B _ d d' hd => ?_
    obtain ⟨rfl, hd⟩ := hd
    exact .pure fun C hC => .mk d (.inr rfl) fun c hc => hC c (hd c hc)

lemma convertWithin_scalar {d : Datum} (hd : d.isScalar) {v : Value} (hv : v.payload = .raw d) :
    ∃ mark, ∀ depth, v.convertWithin depth = pure (.boxed d mark) := by
  have none := Datum.container?_of_isScalar hd
  cases v with
  | boxed e mark =>
    cases hv
    exact ⟨mark, fun depth => by cases depth <;> rfl⟩
  | raw e =>
    cases hv
    exact ⟨0, fun depth => by
      cases depth <;> simp only [convertWithin, convertWith, none]⟩
  | alien a => cases hv

lemma convert_of_held (hv : v.Held l A v') : ∃ u u' : Value, (∀ h, v.convert h = .ok u h)
    ∧ (∀ h, v'.convert h = .ok u' h) ∧ u.Boxed l A u' ∧
      (l → u.Held l A v' ∧ v.Held l A u') := by
  have convert_eq {v u : Value} (e : ∀ depth, v.convertWithin depth = Pure.pure u) (h : Heap) :
      v.convert h = .ok u h := by
    change v.convertWithin (h.containers + 1) h = _
    rw [e]
    rfl
  cases hv with
  | boxed hv =>
    cases hv with
    | mk d hm hd =>
      have hv := Value.Boxed.mk d hm hd
      exact ⟨_, _, convert_eq fun n => by cases n <;> rfl, convert_eq fun n => by cases n <;> rfl,
        hv, fun _ => ⟨.boxed hv, .boxed hv⟩⟩
  | @scalar d hd _ _ hv hv' he =>
    have none (c : Container) (hc : d.container? = some c) : A c := by
      rw [Datum.container?_of_isScalar hd] at hc
      cases hc
    obtain ⟨mark, e⟩ := convertWithin_scalar hd hv
    obtain ⟨mark', e'⟩ := convertWithin_scalar hd hv'
    refine ⟨_, _, convert_eq e, convert_eq e', .mk d ?_ none, fun hl =>
      ⟨.scalar hd rfl hv' (.inl hl), .scalar hd hv rfl (.inl hl)⟩⟩
    refine he.imp (⟨·, hd⟩) fun h => ?_
    subst h
    injection congrFun ((e 0).symm.trans (e' 0)) default with h
    injection h

/-- **Conversion boxes like values alike.** -/
theorem like_convert (hv : v.Passed l A v') :
    Like w l (fun B => Value.Boxed l B) A v.convert v'.convert := by
  rcases hv with hv | hv
  · obtain ⟨u, u', e, e', hu, -⟩ := convert_of_held hv
    intro B hB h h' hh
    rw [e, e']
    exact .ok le_rfl hh (hu.mono hB)
  · refine Like.get.bind fun B hB h h' hh => ?_
    rw [hh.1]
    exact like_convertWithin _ (hv.mono hB)

/-! ### Storing -/

lemma like_modify {f g : Heap → Heap}
    (h : ∀ B, A ≤ B → ∀ h h' : Heap, h.Like w l B h' → (f h).Like w l B (g h')) :
    Like w l (fun _ _ _ => True) A (modify f : HeapM Unit) (modify g) :=
  fun B hB _ _ hh => .ok le_rfl (h B hB _ _ hh) trivial

lemma like_setIndex {c c' i i' v v' : Value} (hc : c.Held l A c') (hi : i.Held l A i')
    (hv : v.Held l A v') :
    Like w l (fun B => Value.Boxed l B) A (c.setIndex i v) (c'.setIndex i' v') := by
  refine (Like.look fun _ => kind_eq hc.payload).bind fun B hB kind _ e => ?_
  subst e
  rw [datum?_eq hc.payload]
  split
  · refine (like_convert (.inl (hv.mono hB))).bind fun C hC u u' hu => ?_
    refine (Like.look fun hh => ?_).bind fun D hD n _ e => ?_
    · rw [position_eq hh hi.payload, hh.size]
    · subst e
      refine (like_modify fun E hE h h' hh => hh.setItem (hu.mono (hD.trans hE)) _ _).bind
        fun E hE _ _ _ => .pure fun F hF => hu.mono (hD.trans (hE.trans hF))
  · exact .throw _
  · exact .throw _

lemma like_setField {c c' k k' v v' : Value} (hc : c.Held l A c') (hk : k.Held l A k')
    (hv : v.Held l A v') :
    Like w l (fun B => Value.Boxed l B) A (c.setField k v) (c'.setField k' v') := by
  refine (Like.look fun _ => kind_eq hc.payload).bind fun B hB kind _ e => ?_
  subst e
  refine (Like.look fun hh => fieldName_eq hh hk.payload).bind fun C hC name _ e => ?_
  subst e
  rw [← datum?_eq hc.payload]
  split
  · rename_i r hr
    refine (like_convert (.inl (hv.mono (hB.trans hC)))).bind fun D hD u u' hu => ?_
    refine (like_modify fun E hE h h' hh => hh.setField (hu.mono hE) ?_ _).bind
      fun E hE _ _ _ => .pure fun F hF => hu.mono (hE.trans hF)
    exact hB.trans (hC.trans (hD.trans hE)) _ (hc.container hr rfl)
  · exact .throw _

end HeapM

/-! ### Looking -/

/-- Like answers: like values or the same fault. -/
inductive LikeAnswer {α β : Type} (R : α → β → Prop) : Except Fault α → Except Fault β → Prop where
  | ok {a : α} {b : β} (h : R a b) : LikeAnswer R (.ok a) (.ok b)
  | error (e : Fault) : LikeAnswer R (.error e) (.error e)

lemma LikeAnswer.of_eq {α : Type} {R : α → α → Prop} (hR : ∀ a, R a a) {x y} (h : x = y) :
    LikeAnswer R x y := by
  subst h
  cases x with
  | ok a => exact .ok (hR a)
  | error e => exact .error e

lemma LikeAnswer.bind {α β γ δ : Type} {R : α → β → Prop} {S : γ → δ → Prop} {x y}
    {f : α → Except Fault γ} {g : β → Except Fault δ} (h : LikeAnswer R x y)
    (k : ∀ a b, R a b → LikeAnswer S (f a) (g b)) : LikeAnswer S (x >>= f) (y >>= g) := by
  cases h with
  | ok h => exact k _ _ h
  | error e => exact .error e

namespace Value

variable {w : Likeness} {l : Prop} {A : Container → Prop} {h h' : Heap} {c c' i i' : Value}

lemma like_getIndex (hh : h.Like w l A h') (hc : c.Held l A c') (hi : i.Held l A i') :
    LikeAnswer (Held l A) (c.getIndex h i) (c'.getIndex h' i') := by
  refine (LikeAnswer.of_eq (fun _ => rfl) (kind_eq hc.payload)).bind fun kind _ e => ?_
  subst e
  rw [← datum?_eq hc.payload]
  split
  · rename_i r hr
    refine (LikeAnswer.of_eq (fun _ => rfl) ?_).bind fun n _ e => .ok ?_
    · rw [position_eq hh.agrees hi.payload, hh.agrees.size]
    · -- The item is boxed, because the array is one of the language.
      subst e
      have hn := (hh.arrays r).get
      have hs := hh.agrees.size r
      simp only [Array.getD_eq_getD_getElem?]
      by_cases hlt : n < (h.array r).size
      · have item := hn (i := n) (by simpa using hlt) (by simpa [← hs] using hlt)
        simp only [get_eq_getElem, Array.getElem_toList] at item
        rw [Array.getElem?_eq_getElem hlt, Array.getElem?_eq_getElem (hs ▸ hlt)]
        refine .boxed (item.of_isBoxed ?_)
        exact hh.items r (hc.container hr rfl) _ (by simp)
      · rw [Array.getElem?_eq_none (by omega), Array.getElem?_eq_none (by omega)]
        exact .boxed .null
  · refine (LikeAnswer.of_eq (fun _ => rfl) (position_eq hh.agrees hi.payload _ _)).bind
      fun n _ e => .ok ?_
    subst e
    refine .wrap rfl ?_
    rcases hc.isBoxed with hl | hc
    · exact .inl hl
    · exact hi.isBoxed.imp_right fun hi => by rw [hc, hi]
  · exact .error _

lemma like_getField (hh : h.Like w l A h') (hc : c.Held l A c') (hi : i.Held l A i') :
    LikeAnswer (Held l A) (c.getField h i) (c'.getField h' i') := by
  refine (LikeAnswer.of_eq (fun _ => rfl) (kind_eq hc.payload)).bind fun kind _ e => ?_
  subst e
  refine (LikeAnswer.of_eq (fun _ => rfl) (fieldName_eq hh.agrees hi.payload)).bind
    fun name _ e => ?_
  subst e
  rw [← datum?_eq hc.payload]
  split
  · rename_i r hr
    have entry : ∀ v, (h.record r).get? name = some v → v.isBoxed := fun v hv =>
      hh.entries r (hc.container hr rfl) (.name name, v) (mem_of_lookup hv)
    have hl := rel_lookup (hh.fields r) (.name name)
    change Option.Rel _ ((h.record r).get? name) ((h'.record r).get? name) at hl
    generalize (h.record r).get? name = o at hl entry
    generalize (h'.record r).get? name = o' at hl
    cases hl with
    | none => exact .error _
    | some hv => exact .ok (.boxed (hv.of_isBoxed (entry _ rfl)))
  · exact .error _

end Value

namespace Heap

variable {w : Likeness} {l : Prop} {A : Container → Prop} {h h' : Heap} {v v' u u' : Value}

lemma like_binary (hh : h.Like w l A h') (op) (hv : v.Held l A v') (hu : u.Held l A u') :
    LikeAnswer (Value.Held l A) (h.binary op v u) (h'.binary op v' u') := by
  unfold binary
  rw [← binaryDatum_eq hh.agrees op hv.payload hu.payload]
  cases hd : h.binaryDatum op v u with
  | error e => exact .error e
  | ok d =>
    refine .ok (.wrap (isScalar_binaryDatum hd) ?_)
    rcases hv.isBoxed with hl | hv
    · exact .inl hl
    · exact hu.isBoxed.imp_right fun hu => by rw [hv, hu]

lemma like_unary (hh : h.Like w l A h') (op) (hv : v.Held l A v') :
    LikeAnswer (Value.Held l A) (h.unary op v) (h'.unary op v') := by
  unfold unary
  split
  · rw [isTrue_eq hv.payload]
    exact .ok (.wrap rfl hv.isBoxed)
  · rw [number?_eq hv.payload, operandFault_eq _ hv.payload]
    split
    · cases hf : (operandFault op.symbol [v'] : Except Fault Value) with
      | error e => exact .error e
      | ok u => exact absurd hf (operandFault_ne_ok _ _ _)
    · rw [unaryNumber_eq hh.agrees op hv.payload]
      refine (LikeAnswer.of_eq (fun _ => rfl) rfl).bind fun x _ e => ?_
      subst e
      exact .ok (.wrap rfl hv.isBoxed)

end Heap

end DynScript

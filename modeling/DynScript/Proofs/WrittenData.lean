import DynScript.Proofs.HeapLikeness
import DynScript.Proofs.IntegralNumbers
import Mathlib.Data.List.Nodup
import Mathlib.Data.List.Perm.Subperm

/-!
# Written data

Data without functions is a tree of arrays and records with constants at its leaves.
-/

namespace DynScript

open List

/-! ### Trees -/

/-- Data without functions. -/
inductive Tree where
  | constant (c : Constant)
  | array (items : List Tree)
  | record (fields : List (String × Tree))

namespace Tree

@[elab_as_elim]
lemma induction {P : Tree → Prop} (constant : ∀ c, P (.constant c))
    (array : ∀ l, (∀ t ∈ l, P t) → P (.array l)) (record : ∀ l, (∀ f ∈ l, P f.2) → P (.record l))
    (t) : P t :=
  @Tree.rec P (fun l => ∀ t ∈ l, P t) (fun l => ∀ f ∈ l, P f.2) (fun f => P f.2) constant array record
    (forall_mem_nil _) (fun _ _ head tail => forall_mem_cons.2 ⟨head, tail⟩)
    (forall_mem_nil _) (fun _ _ head tail => forall_mem_cons.2 ⟨head, tail⟩)
    (fun _ _ value => value) t

lemma sizeOf_item {t l} (h : t ∈ l) : sizeOf t < sizeOf (Tree.array l) := by
  have := sizeOf_lt_of_mem h
  simp only [array.sizeOf_spec]
  omega

lemma sizeOf_field {t} {l : List (String × Tree)} (h : t ∈ l.map (·.2)) :
    sizeOf t < sizeOf (Tree.record l) := by
  obtain ⟨⟨name, t⟩, hf, rfl⟩ := mem_map.1 h
  have := sizeOf_lt_of_mem hf
  simp only [record.sizeOf_spec, Prod.mk.sizeOf_spec] at this ⊢
  omega

end Tree

/-! ### Values for trees -/

/-- A value of the language or of the host that is the given datum. -/
def Value.Is (v : Value) (d : Datum) : Prop :=
  v.payload = .raw d

/-- A reference to a container as a datum. -/
def Container.datum : Container → Datum
  | .array r => .array r
  | .record r => .record r

/-- The value `v` stands for a tree in the heap `h`, by containers all of which are in `S`. -/
inductive Heap.RepresentsIn (h : Heap) (S : Container → Prop) : Value → Tree → Prop where
  | constant {v : Value} {c : Constant} (hv : v.Is c.datum) : RepresentsIn h S v (.constant c)
  | array {v : Value} {r} {l} (hv : v.Is (.array r)) (hs : S (.array r))
    (hl : Forall₂ (RepresentsIn h S) (h.array r).toList l) : RepresentsIn h S v (.array l)
  | record {v : Value} {r} {l : List (String × Tree)} (hv : v.Is (.record r))
    (hs : S (.record r)) (hk : (h.record r).fields.map (·.1) = l.map (Key.name ·.1))
    (hl : Forall₂ (RepresentsIn h S) ((h.record r).fields.map (·.2)) (l.map (·.2))) :
    RepresentsIn h S v (.record l)

/-- The value `v` stands for a tree in the heap `h`: it has the same kind, and what it refers to has the
same items or fields in the same order. -/
def Heap.Represents (h : Heap) (v : Value) (t : Tree) : Prop :=
  h.RepresentsIn (fun _ => True) v t

variable {α β : Type}

lemma Forall₂.imp_mem {R R' : α → β → Prop} {l m} (h : Forall₂ R l m)
    (hi : ∀ b ∈ m, ∀ a, R a b → R' a b) : Forall₂ R' l m := by
  induction h with
  | nil => exact .nil
  | cons head _ ih =>
    exact .cons (hi _ mem_cons_self _ head) (ih fun b hb => hi b (mem_cons_of_mem _ hb))

lemma Forall₂.unique {R R' : α → β → Prop} {l m m'} (h : Forall₂ R l m) (h' : Forall₂ R' l m')
    (hu : ∀ b ∈ m, ∀ a b', R a b → R' a b' → b = b') : m = m' := by
  induction h generalizing m' with
  | nil =>
    cases h'
    rfl
  | cons head _ ih =>
    cases h' with
    | cons head' tail' =>
      rw [hu _ mem_cons_self _ _ head head',
        ih tail' fun b hb => hu b (mem_cons_of_mem _ hb)]

variable {R : α → β → Prop}

lemma Forall₂.ne_nil {l m} (h : Forall₂ R l m) (hm : m ≠ []) : l ≠ [] := by
  rintro rfl
  cases h
  exact hm rfl

lemma Forall₂.entries {κ κ' : Type} (name : κ' → κ) {l : List (κ × α)} {m : List (κ' × β)}
    (hk : l.map (·.1) = m.map (name ·.1)) (h : Forall₂ R (l.map (·.2)) (m.map (·.2))) :
    Forall₂ (fun f g => f.1 = name g.1 ∧ R f.2 g.2) l m := by
  induction l generalizing m with
  | nil =>
    cases m with
    | nil => exact .nil
    | cons => cases hk
  | cons f l ih =>
    cases m with
    | nil => cases hk
    | cons g m =>
      obtain ⟨key, keys⟩ := List.cons.inj hk
      cases h with
      | cons value values => exact .cons ⟨key, value⟩ (ih keys values)

lemma Forall₂.keys_values {κ κ' : Type} (name : κ' → κ) {l : List (κ × α)} {m : List (κ' × β)}
    (h : Forall₂ (fun f g => f.1 = name g.1 ∧ R f.2 g.2) l m) :
    l.map (·.1) = m.map (name ·.1) ∧ Forall₂ R (l.map (·.2)) (m.map (·.2)) := by
  induction h with
  | nil => exact ⟨rfl, .nil⟩
  | cons head _ ih =>
    obtain ⟨keys, values⟩ := ih
    exact ⟨by rw [map_cons, map_cons, head.1, keys], .cons head.2 values⟩

lemma Value.Is.unique {v : Value} {d d'} (h : v.Is d) (h' : v.Is d') : d = d' :=
  Value.raw.inj (h.symm.trans h')

lemma Constant.datum_injective {c c' : Constant} (h : c.datum = c'.datum) : c = c' := by
  cases c <;> cases c' <;> cases h <;> rfl

namespace Heap.RepresentsIn

variable {h k : Heap} {S T : Container → Prop} {v : Value} {t t' : Tree}

lemma transfer (H : h.RepresentsIn S v t) (hs : ∀ c, S c → T c)
    (ha : ∀ r, S (.array r) → k.array r = h.array r)
    (hr : ∀ r, S (.record r) → k.record r = h.record r) : k.RepresentsIn T v t := by
  induction t using Tree.induction generalizing v with
  | constant c =>
    cases H with
    | constant hv => exact .constant hv
  | array l ih =>
    cases H with
    | @array _ r _ hv hS hl =>
      refine .array hv (hs _ hS) ?_
      rw [ha r hS]
      exact Forall₂.imp_mem hl fun t ht _ H => ih t ht H
  | record l ih =>
    cases H with
    | @record _ r _ hv hS hk hl =>
      rw [← hr r hS] at hk hl
      refine .record hv (hs _ hS) hk (Forall₂.imp_mem hl ?_)
      exact forall_mem_map.2 fun f hf _ H => ih f hf H

lemma unique (H : h.RepresentsIn S v t) (H' : h.RepresentsIn T v t') : t = t' := by
  induction t using Tree.induction generalizing v t' with
  | constant c =>
    cases H with
    | constant hv =>
      cases H' with
      | constant hv' => rw [Constant.datum_injective (hv.unique hv')]
      | array hv' | record hv' => cases c <;> cases hv.unique hv'
  | array l ih =>
    cases H with
    | array hv _ hl =>
      cases H' with
      | @constant _ c hv' => cases c <;> cases hv'.unique hv
      | array hv' _ hl' =>
        cases hv.unique hv'
        rw [Forall₂.unique hl hl' fun t ht _ _ H H' => ih t ht H H']
      | record hv' => cases hv.unique hv'
  | record l ih =>
    cases H with
    | record hv _ hk hl =>
      cases H' with
      | @constant _ c hv' => cases c <;> cases hv'.unique hv
      | array hv' => cases hv.unique hv'
      | @record _ _ l' hv' _ hk' hl' =>
        cases hv.unique hv'
        have values : l.map (·.2) = l'.map (·.2) :=
          Forall₂.unique hl hl' (forall_mem_map.2 fun f hf _ _ H H' => ih f hf H H')
        have keys : l.map (·.1) = l'.map (·.1) := by
          simpa [Function.comp_def, Key.text] using congrArg (map Key.text) (hk.symm.trans hk')
        rw [zip_of_prod keys values, ← zip_of_prod rfl rfl]

lemma congr (H : h.RepresentsIn S v t) {w : Value} (hw : w.payload = v.payload) :
    h.RepresentsIn S w t := by
  cases H with
  | constant hv => exact .constant (hw.trans hv)
  | array hv hS hl => exact .array (hw.trans hv) hS hl
  | record hv hS hk hl => exact .record (hw.trans hv) hS hk hl

/-- **No container is inside of itself**: what stands for a smaller tree does without it. -/
theorem avoid {w : Value} {c : Container} (hw : w.Is c.datum) (hc : h.RepresentsIn T w t)
    (H : h.RepresentsIn S v t') (hlt : sizeOf t' < sizeOf t) :
    h.RepresentsIn (fun x => S x ∧ x ≠ c) v t' := by
  -- Where the container is met, it stands for a tree of another size.
  have other {v : Value} {t' : Tree} {x : Container} (H : h.RepresentsIn S v t')
      (hlt : sizeOf t' < sizeOf t) (hv : v.Is x.datum) : x ≠ c := by
    rintro rfl
    rw [(H.congr (hw.trans hv.symm)).unique hc] at hlt
    exact lt_irrefl _ hlt
  induction t' using Tree.induction generalizing v with
  | constant c =>
    cases H with
    | constant hv => exact .constant hv
  | array l ih =>
    have new (r : Ref) : v.Is (.array r) → .array r ≠ c :=
      other (x := .array r) H hlt
    cases H with
    | array hv hS hl =>
      exact .array hv ⟨hS, new _ hv⟩ (Forall₂.imp_mem hl fun t ht _ H =>
        ih t ht H ((Tree.sizeOf_item ht).trans hlt))
  | record l ih =>
    have new (r : Ref) : v.Is (.record r) → .record r ≠ c :=
      other (x := .record r) H hlt
    cases H with
    | record hv hS hk hl =>
      refine .record hv ⟨hS, new _ hv⟩ hk (Forall₂.imp_mem hl ?_)
      refine forall_mem_map.2 fun f hf _ H => ih f hf H ?_
      exact (Tree.sizeOf_field (mem_map_of_mem hf)).trans hlt

end Heap.RepresentsIn

/-! ### The text of a tree -/

/-- The text of a constant, as it is shown inside a container. -/
def Constant.quoted : Constant → String
  | .null => "null"
  | .bool b => if b then "true" else "false"
  | .number x => Number.text x
  | .text s => quoteText s

namespace Tree

/-- The text that a tree is written as. -/
def text : Tree → String
  | .constant c => c.quoted
  | .array l => "[" ++ ", ".intercalate (texts l) ++ "]"
  | .record l => "\x7b" ++ ", ".intercalate (fieldTexts l) ++ "\x7d"
where
  /-- The texts of the items of an array. -/
  texts : List Tree → List String
    | [] => []
    | t :: l => text t :: texts l
  /-- The texts of the fields of a record. -/
  fieldTexts : List (String × Tree) → List String
    | [] => []
    | (name, t) :: l => (name ++ ": " ++ text t) :: fieldTexts l

@[simp] lemma texts_eq (l) : text.texts l = l.map text := by
  induction l with
  | nil => rfl
  | cons t l ih => simp [text.texts, ih]

@[simp] lemma fieldTexts_eq (l) : text.fieldTexts l = l.map fun f => f.1 ++ ": " ++ f.2.text := by
  induction l with
  | nil => rfl
  | cons f l ih => simp [text.fieldTexts, ih]

end Tree

namespace Heap

variable {h : Heap} {S : Container → Prop} {v : Value} {t : Tree}

lemma scalarText_datum (c : Constant) : h.scalarText true c.datum = c.quoted := by
  cases c <;> rfl

/-- The number of a container among all of a heap, the arrays first. -/
def placeOf (h : Heap) : Container → Nat
  | .array r => r
  | .record r => h.arrays.size + r

variable {c : Container} {path : List Container} {depth : Nat}

lemma placeOf_lt (hc : h.Has c) : h.placeOf c < h.containers := by
  cases c with
  | array r => exact Nat.lt_add_right _ hc
  | record r => exact Nat.add_lt_add_left hc _

lemma placeOf_injective {d} (hc : h.Has c) (hd : h.Has d) (same : h.placeOf c = h.placeOf d) :
    c = d := by
  cases c with
  | array r =>
    cases d with
    | array s => exact congrArg Container.array same
    | record s =>
      have before : r < h.arrays.size := hc
      exact absurd same (ne_of_lt (Nat.lt_add_right s before))
  | record r =>
    cases d with
    | array s =>
      have before : s < h.arrays.size := hd
      exact absurd same (ne_of_gt (Nat.lt_add_right r before))
    | record s => exact congrArg Container.record (add_left_cancel same)

lemma length_le_containers (hp : path.Nodup) (hh : ∀ c ∈ path, h.Has c) :
    path.length ≤ h.containers := by
  have different : (path.map h.placeOf).Nodup :=
    List.Nodup.map_on (fun c hc d hd same => placeOf_injective (hh c hc) (hh d hd) same) hp
  have inside : path.map h.placeOf ⊆ List.range h.containers := by
    intro n hn
    obtain ⟨c, hc, rfl⟩ := mem_map.1 hn
    exact mem_range.2 (placeOf_lt (hh c hc))
  have fits := (List.Nodup.subperm different inside).length_le
  rwa [length_map, length_range] at fits

lemma mapM_of_forall₂ {α β γ : Type} {f : α → Except Fault γ} {g : β → γ} {l m}
    (hl : Forall₂ (fun a b => f a = .ok (g b)) l m) : l.mapM f = .ok (m.map g) := by
  induction hl with
  | nil => rfl
  | cons head _ ih =>
    rw [mapM_cons, head, ih]
    rfl

lemma textWithin_container {nested : Bool} (hv : v.Is c.datum) (hc : c ∉ path) :
    h.textWithin (depth + 1) path nested v =
      h.contentText (h.textWithin depth (c :: path) true) c := by
  have absent : ¬ path.contains c = true := by simpa using hc
  rw [← textWithin_payload, hv]
  cases c <;> exact if_neg absent

lemma exists_depth (hp : path.Nodup)
    (hh : ∀ c ∈ path, h.Has c) (hd : depth + path.length = h.containers + 1) :
    ∃ d, depth = d + 1 := by
  have := length_le_containers hp hh
  exact ⟨depth - 1, by omega⟩

/-- The values in a container, in the order in which they are written. -/
def parts (h : Heap) : Container → List Value
  | .array r => (h.array r).toList
  | .record r => (h.record r).fields.map (·.2)

lemma has_of_parts (hc : h.parts c ≠ []) : h.Has c := by
  cases c <;> refine Nat.lt_of_not_le fun beyond => hc ?_ <;>
    simp only [parts, array, record, Array.getD_eq_getD_getElem?, Array.getElem?_eq_none beyond] <;> rfl

lemma within {w : Value} {t'} (hw : w.Is c.datum) (hc : h.RepresentsIn (· ∉ path) w t)
    (H : h.RepresentsIn (· ∉ path) v t') (hlt : sizeOf t' < sizeOf t) :
    h.RepresentsIn (· ∉ c :: path) v t' :=
  (hc.avoid hw H hlt).transfer
    (fun _ off => not_mem_cons_of_ne_of_not_mem off.2 off.1) (fun _ _ => rfl) fun _ _ => rfl

/-- **The text of a value that stands for a tree**, inside of containers other than its own. -/
theorem textWithin_of_represents (hp : path.Nodup)
    (hh : ∀ c ∈ path, h.Has c) (hd : depth + path.length = h.containers + 1)
    (H : h.RepresentsIn (· ∉ path) v t) : h.textWithin depth path true v = .ok t.text := by
  induction t using Tree.induction generalizing depth path v with
  | constant c =>
    cases H with
    | constant hv =>
      rw [← textWithin_payload, hv, Tree.text, ← scalarText_datum (h := h)]
      cases depth <;> cases c <;> rfl
  | array l ih =>
    cases id H with
    | @array _ r _ hv outside hl =>
      obtain ⟨depth, rfl⟩ := exists_depth hp hh hd
      rw [textWithin_container (c := .array r) hv outside, contentText]
      have items : Forall₂ (fun u t => h.textWithin depth (.array r :: path) true u = .ok t.text)
          (h.array r).toList l := by
        refine Forall₂.imp_mem hl fun t ht u hu => ?_
        -- The array has an item, so it is in the heap.
        have there : h.Has (.array r) := has_of_parts (Forall₂.ne_nil hl (ne_nil_of_mem ht))
        exact ih t ht (nodup_cons.2 ⟨outside, hp⟩) (forall_mem_cons.2 ⟨there, hh⟩)
          (by rw [length_cons]; omega) (within (c := .array r) hv H hu (Tree.sizeOf_item ht))
      rw [mapM_of_forall₂ items]
      simp only [Tree.text, Tree.texts_eq]
      rfl
  | record l ih =>
    cases id H with
    | @record _ r _ hv outside hk hl =>
      obtain ⟨depth, rfl⟩ := exists_depth hp hh hd
      rw [textWithin_container (c := .record r) hv outside, contentText]
      have values : Forall₂ (fun u t => h.textWithin depth (.record r :: path) true u = .ok t.text)
          ((h.record r).fields.map (·.2)) (l.map (·.2)) := by
        refine Forall₂.imp_mem hl fun t ht u hu => ?_
        have there : h.Has (.record r) :=
          has_of_parts (Forall₂.ne_nil hl (ne_nil_of_mem ht))
        obtain ⟨f, hf, rfl⟩ := mem_map.1 ht
        exact ih f hf (nodup_cons.2 ⟨outside, hp⟩) (forall_mem_cons.2 ⟨there, hh⟩)
          (by rw [length_cons]; omega) (within (c := .record r) hv H hu (Tree.sizeOf_field ht))
      have fields := mapM_of_forall₂ (f := fun f : Key × Value => do
          return f.1.text ++ ": " ++ (← h.textWithin depth (.record r :: path) true f.2))
        (g := fun f => f.1 ++ ": " ++ f.2.text) (Forall₂.imp_mem (Forall₂.entries Key.name hk values)
          fun g _ f same => by rw [same.2, same.1]; rfl)
      rw [fields]
      simp only [Tree.text, Tree.fieldTexts_eq]
      rfl

/-- **The text of a value that stands for a tree.** -/
theorem quotedText_of_represents (H : h.Represents v t) : h.quotedText v = .ok t.text :=
  textWithin_of_represents .nil (forall_mem_nil _) rfl
    (H.transfer (fun _ _ => not_mem_nil) (fun _ _ => rfl) fun _ _ => rfl)

end Heap

end DynScript

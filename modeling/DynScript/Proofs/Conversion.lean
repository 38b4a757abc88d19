import DynScript.Proofs.Effects
import DynScript.Proofs.Orderly
import DynScript.Proofs.WrittenCycles
import Mathlib.Tactic.Choose

/-!
# Conversion of host values

A host hands values to scripts that are raw, boxed, or a mixture of both.  Conversion copies what is
raw, from the left to the right, and stops at the first thing that has no place in the language.

* `Heap.Walks` lists what is met in a value, each key just before its own entry, and `Met.obstacle?`
  says which of it stands in the way;
* `Heap.Copies` relates a value to its copy;
* `Heap.ends_convertWithin` is the run of a conversion, and `Heap.conversion_faithful` its result.
-/

namespace DynScript

open List

/-- The container that a value is on either side. -/
def Value.inner? : Value → Option Container
  | .boxed d _ | .raw d => d.container?
  | .alien (.tuple r) => some (.array r)
  | .alien _ => none

/-- A key that scripts can name. -/
def Key.isName : Key → Bool
  | name _ => true
  | foreign .. => false

/-- What is met on the way through a value. -/
inductive Met where
  | key (k : Key)
  | value (v : Value)

namespace Met

/-- What is of the language already. -/
def isOwn : Met → Bool
  | key k => k.isName
  | value v => v.isBoxed

/-- The error of a key or a value that has no place in the language, whatever the parts of the value. -/
def obstacle? : Met → Option Fault
  | key (.foreign type _) => some (.recordKey type)
  | value (.alien (.object type)) => some (.unconvertible type)
  | value (.alien (.integer n)) => if (Number.ofInt? n).isSome then none else some .integerTooLarge
  | _ => none

end Met

namespace Heap

/-- The entries of a container in their order: items, and fields with their keys. -/
def entries (h : Heap) : Container → List (Option Key × Value)
  | .array r => (h.array r).toList.map (none, ·)
  | .record r => (h.record r).fields.map fun f => (some f.1, f.2)

/-- What is met in an entry, given what is met in each value: its key comes first. -/
def metIn (walk : Value → List Met) (e : Option Key × Value) : List Met :=
  e.1.toList.map .key ++ walk e.2

/-- Containers of the same form: arrays of one length, or records with the same names. -/
def Mirrors (h k : Heap) : Container → Container → Prop
  | .array r, .array s => (h.array r).size = (k.array s).size
  | .record r, .record s => (h.record r).fields.map (·.1) = (k.record s).fields.map (·.1) ∧
      ∀ f ∈ (h.record r).fields, f.1.isName
  | _, _ => False

/-- A finite value, no part of which holds itself, and what is met in it from the left to the right.  What
is boxed is a result of conversion: it has boxed parts only, and its keys are names. -/
inductive Walks (h : Heap) : Value → List Met → Prop where
  | leaf {v : Value} (hv : v.inner? = none)
    (live : ∀ r, (v.Is (.callable r) ∨ ∃ type, v = .alien (.function r type)) → r < h.functions.size) :
    Walks h v [.value v]
  | node {v : Value} {c} {walk : Value → List Met} (hv : v.inner? = some c) (live : h.Has c)
    (owned : v.isBoxed → h.Mirrors h c c ∧ ∀ u ∈ h.parts c, u.isBoxed)
    (parts : ∀ u ∈ h.parts c, Walks h u (walk u)) :
    Walks h v (.value v :: (h.entries c).flatMap (metIn walk))

/-- The value `u` in the heap `k` is what the value `v` in the heap `h` is converted to.  A box is kept as it
is, with its mark; a container is copied part by part. -/
inductive Copies (h k : Heap) : Value → Value → Prop where
  | boxed (d : Datum) (mark : Nat) : Copies h k (.boxed d mark) (.boxed d mark)
  | scalar {d : Datum} (hd : d.container? = none) : Copies h k (.raw d) (.boxed d)
  | integer {n : Int} {x} (hx : Number.ofInt? n = some x) :
    Copies h k (.alien (.integer n)) (.boxed (.number x))
  | function {r s} (type : String) (live : s < k.functions.size) (same : k.function s = h.function r) :
    Copies h k (.alien (.function r type)) (.boxed (.callable s))
  | container {v : Value} {c d : Container} (raw : ¬ v.isBoxed) (hv : v.inner? = some c) (live : k.Has d)
    (form : h.Mirrors k c d) (parts : ∀ p ∈ (h.parts c).zip (k.parts d), Copies h k p.1 p.2) :
    Copies h k v (.boxed d.datum)

variable {h k k' : Heap} {c d : Container} {u v : Value} {l : List Met} {path : List Container}
  {depth : Nat}

lemma parts_eq (h : Heap) (c) : h.parts c = (h.entries c).map (·.2) := by
  cases c <;> simp [parts, entries, Function.comp_def]

lemma mem_parts {e} (he : e ∈ h.entries c) : e.2 ∈ h.parts c :=
  parts_eq h c ▸ mem_map_of_mem he

lemma flatMap_metIn {walk walk' : Value → List Met} (same : ∀ u ∈ h.parts c, walk u = walk' u) :
    (h.entries c).flatMap (metIn walk) = (h.entries c).flatMap (metIn walk') :=
  flatMap_congr fun e he => congrArg (e.1.toList.map Met.key ++ ·) (same e.2 (mem_parts he))

lemma Adds.has (hk : h.Adds k) (hc : h.Has c) : k.Has c := by
  cases c with
  | array r => exact lt_of_lt_of_le hc hk.arrays_size
  | record r => exact lt_of_lt_of_le hc hk.records_size

lemma Adds.parts (hk : h.Adds k) (hc : h.Has c) : k.parts c = h.parts c := by
  cases c with
  | array r => rw [Heap.parts, Heap.parts, hk.arrays r hc]
  | record r => rw [Heap.parts, Heap.parts, hk.records r hc]

/-! ### Copies -/

lemma Mirrors.extend (form : h.Mirrors k c d) (live : k.Has d) (hk : k.Adds k') : h.Mirrors k' c d := by
  cases c <;> cases d <;> simp only [Mirrors] at form ⊢
  · rw [hk.arrays _ live, form]
  · rwa [hk.records _ live]

lemma Mirrors.length_eq (form : h.Mirrors k c d) : (h.parts c).length = (k.parts d).length := by
  cases c <;> cases d <;> simp only [Mirrors] at form
  · simpa [parts] using form
  · simpa [parts] using congrArg List.length form.1

lemma Mirrors.right_self (form : h.Mirrors k c d) : k.Mirrors k d d := by
  cases c <;> cases d <;> simp only [Mirrors] at form ⊢
  refine ⟨trivial, fun f hf => ?_⟩
  obtain ⟨g, hg, same⟩ := mem_map.1 (form.1 ▸ mem_map_of_mem (f := Prod.fst) hf)
  exact same ▸ form.2 g hg

lemma Copies.extend (K : h.Copies k v u) (hk : k.Adds k') : h.Copies k' v u := by
  induction K with
  | boxed d mark => exact .boxed d mark
  | scalar hd => exact .scalar hd
  | integer hx => exact .integer hx
  | @function r s type live same =>
    exact .function type (hk.functions s live).1 ((hk.functions s live).2.trans same)
  | container raw hv live form _ ih =>
    refine .container raw hv (hk.has live) (form.extend live hk) fun p hp => ih p ?_
    rwa [hk.parts live] at hp

lemma Copies.refl_of_isBoxed (hv : v.isBoxed) : h.Copies k v v := by
  cases v with
  | boxed d mark => exact .boxed d mark
  | raw | alien => cases hv

lemma Copies.same_side (K : h.Copies k v u) : u.isBoxed ∧ u.isTrue = v.isTrue ∧
    ∀ kind, v.kind = .ok kind → u.kind = .ok kind := by
  cases K with
  | boxed d mark => exact ⟨rfl, rfl, fun _ => id⟩
  | scalar hd => exact ⟨rfl, rfl, fun _ => id⟩
  | integer hx => exact ⟨rfl, rfl, fun _ => id⟩
  | function => exact ⟨rfl, rfl, fun _ hk => by cases hk⟩
  | @container _ c d raw hv _ form =>
    refine ⟨rfl, ?_⟩
    cases v with
    | boxed e mark => cases raw rfl
    | raw e => cases e <;> cases hv <;> cases d <;> first | exact form.elim | exact ⟨rfl, fun _ => id⟩
    | alien a => cases a <;> cases hv <;> cases d <;>
        first | exact form.elim | exact ⟨rfl, fun _ hk => by cases hk⟩

/-! ### Walks -/

lemma Walks.unique {m} (H : h.Walks v l) (K : h.Walks v m) : l = m := by
  induction H generalizing m with
  | leaf hv =>
    cases K with
    | leaf => rfl
    | node hv' => cases hv.symm.trans hv'
  | node hv _ _ _ ih =>
    cases K with
    | leaf hv' => cases hv.symm.trans hv'
    | node hv' _ _ parts =>
      cases hv.symm.trans hv'
      rw [flatMap_metIn fun u hu => ih u hu (parts u hu)]

lemma Mirrors.isName (form : h.Mirrors k c d) {e} (he : e ∈ h.entries c) {key} (hk : e.1 = some key) :
    key.isName := by
  cases c with
  | array r =>
    obtain ⟨v, -, rfl⟩ := mem_map.1 he
    cases hk
  | record r =>
    obtain ⟨f, hf, rfl⟩ := mem_map.1 he
    cases d with
    | array => exact form.elim
    | record =>
      cases hk
      exact form.2 f hf

lemma Walks.isOwn (H : h.Walks v l) (hv : v.isBoxed) : ∀ x ∈ l, x.isOwn := by
  induction H with
  | leaf => exact forall_mem_singleton.2 hv
  | node _ _ owned _ ih =>
    obtain ⟨form, boxed⟩ := owned hv
    refine forall_mem_cons.2 ⟨hv, fun x hx => ?_⟩
    obtain ⟨e, he, hx⟩ := mem_flatMap.1 hx
    rcases mem_append.1 hx with hx | hx
    · obtain ⟨key, hk, rfl⟩ := mem_map.1 hx
      exact form.isName he (Option.mem_toList.1 hk)
    · exact ih e.2 (mem_parts he) (boxed _ (mem_parts he)) x hx

/-- There is room for the walk of a value inside the containers of `path`, none of which it goes into. -/
structure Room (h : Heap) (depth : Nat) (path : List Container) (l : List Met) : Prop where
  nodup : path.Nodup
  has : ∀ c ∈ path, h.Has c
  depth_eq : depth + path.length = h.containers + 1
  longer : ∀ c ∈ path, ∀ (u : Value) (m : List Met), u.inner? = some c → h.Walks u m → l.length < m.length

lemma Room.start (h : Heap) (l) : h.Room (h.containers + 1) [] l :=
  ⟨.nil, forall_mem_nil _, rfl, forall_mem_nil _⟩

lemma Room.enter {walk : Value → List Met}
    (R : h.Room depth path (.value v :: (h.entries c).flatMap (metIn walk))) (hv : v.inner? = some c)
    (H : h.Walks v (.value v :: (h.entries c).flatMap (metIn walk))) (live : h.Has c)
    (parts : ∀ u ∈ h.parts c, h.Walks u (walk u)) :
    c ∉ path ∧ ∃ d, depth = d + 1 ∧ ∀ u ∈ h.parts c, h.Room d (c :: path) (walk u) := by
  have inside : c ∉ path := fun hc => lt_irrefl _ (R.longer c hc v _ hv H)
  obtain ⟨d, rfl⟩ := exists_depth R.nodup R.has R.depth_eq
  refine ⟨inside, d, rfl, fun u hu => ⟨nodup_cons.2 ⟨inside, R.nodup⟩,
    forall_mem_cons.2 ⟨live, R.has⟩, ?_, fun e he w m hw hm => ?_⟩⟩
  · have room := R.depth_eq
    rw [length_cons]
    omega
  · have shorter : (walk u).length < (Met.value v :: (h.entries c).flatMap (metIn walk)).length := by
      rw [parts_eq] at hu
      obtain ⟨entry, he, rfl⟩ := mem_map.1 hu
      obtain ⟨before, after, split⟩ := append_of_mem he
      simp only [split, flatMap_append, flatMap_cons, metIn, length_cons, length_append]
      omega
    rcases mem_cons.1 he with rfl | he
    · -- Every value that is this container is walked in the same way.
      cases hm with
      | leaf hw' => cases hw.symm.trans hw'
      | node hw' _ _ parts' =>
        cases hw.symm.trans hw'
        rw [flatMap_metIn fun u hu => (parts u hu).unique (parts' u hu)] at shorter
        exact shorter
    · exact lt_trans shorter (R.longer e he w m hw hm)

lemma Copies.enter (K : h.Copies k v u) (hv : v.inner? = some c) (live : h.Has c) (hk : h.Adds k)
    (owned : v.isBoxed → h.Mirrors h c c ∧ ∀ w ∈ h.parts c, w.isBoxed) :
    ∃ d mark, u = .boxed (Container.datum d) mark ∧ k.Has d ∧ h.Mirrors k c d ∧
      Forall₂ (h.Copies k) (h.parts c) (k.parts d) := by
  cases K with
  | boxed e mark =>
    obtain rfl : e = c.datum := by cases e <;> cases hv <;> rfl
    obtain ⟨form, boxed⟩ := owned rfl
    refine ⟨c, mark, rfl, hk.has live, form.extend live hk, ?_⟩
    rw [hk.parts live]
    exact forall₂_same.2 fun w hw => .refl_of_isBoxed (boxed w hw)
  | scalar hd => cases hd.symm.trans hv
  | integer | function => cases hv
  | container _ hv' live' form parts =>
    cases hv.symm.trans hv'
    exact ⟨_, 0, rfl, live', form, forall₂_iff_zip.2 ⟨form.length_eq, fun hp => parts _ hp⟩⟩

/-- **There are only boxes in a copy**, however deep. -/
theorem Copies.walks (K : h.Copies k v u) (H : h.Walks v l) (hk : h.Adds k) : ∃ m, k.Walks u m := by
  induction H generalizing u with
  | @leaf v hv live =>
    cases K with
    | boxed d mark => exact ⟨_, .leaf hv fun r hr => (hk.functions r (live r hr)).1⟩
    | scalar hd =>
      refine ⟨_, .leaf hd fun r hr => (hk.functions r (live r ?_)).1⟩
      exact hr.imp id fun ⟨_, hr⟩ => by cases hr
    | integer => exact ⟨_, .leaf rfl fun r hr => by rcases hr with hr | ⟨_, hr⟩ <;> cases hr⟩
    | function _ new =>
      refine ⟨_, .leaf rfl fun r hr => ?_⟩
      rcases hr with hr | ⟨_, hr⟩ <;> cases hr
      exact new
    | container _ hv' => cases hv.symm.trans hv'
  | node hv live owned _ ih =>
    obtain ⟨d, mark, rfl, live', form, copies⟩ := K.enter hv live hk owned
    have origin (w : Value) (hw : w ∈ k.parts d) := exists_left_of_forall₂ copies hw
    have walks : ∀ w ∈ k.parts d, ∃ m, k.Walks w m := fun w hw =>
      let ⟨p, hp, copied⟩ := origin w hw
      ih p hp copied
    choose! walk hw using walks
    refine ⟨_, .node d.container?_datum live' (fun _ => ⟨form.right_self, fun w hw => ?_⟩) hw⟩
    obtain ⟨p, -, copied⟩ := origin w hw
    exact copied.same_side.1

end Heap

/-! ### Conversion -/

namespace HeapM

open Heap

/-- An operation on the heap `k` fails with the given error; if there is none, it gives a result and has
only added to the heap. -/
def Ends {α : Type} (x : HeapM α) (k : Heap) (e : Option Fault) (Q : Heap → α → Prop) : Prop :=
  match e with
  | some f => ∃ k', x k = .error f k'
  | none => ∃ a k', x k = .ok a k' ∧ k.Adds k' ∧ Q k' a

variable {α β : Type} {h k : Heap} {e e' : Option Fault} {P : Heap → α → Prop} {Q : Heap → β → Prop}

lemma Ends.bind {x : HeapM α} {g : α → HeapM β} (hx : x.Ends k e P)
    (hg : ∀ a k', k.Adds k' → P k' a → (g a).Ends k' e' Q) : (x >>= g).Ends k (e.or e') Q := by
  cases e with
  | some f =>
    obtain ⟨k', hk⟩ := hx
    refine ⟨k', ?_⟩
    change EStateM.bind x g k = _
    rw [EStateM.bind, hk]
  | none =>
    obtain ⟨a, k', hk, ext, ha⟩ := hx
    have onward : (x >>= g) k = g a k' := by
      change EStateM.bind x g k = _
      rw [EStateM.bind, hk]
    have rest := hg a k' ext ha
    cases e' with
    | some f =>
      obtain ⟨k'', hk''⟩ := rest
      exact ⟨k'', onward.trans hk''⟩
    | none =>
      obtain ⟨b, k'', hk'', ext', hb⟩ := rest
      exact ⟨b, k'', onward.trans hk'', ext.trans ext', hb⟩

lemma Ends.mapM {f : α → HeapM β} {first : α → Option Fault} {R : Heap → α → β → Prop}
    (extend : ∀ {k k' a b}, R k a b → k.Adds k' → R k' a b) {l : List α}
    (hf : ∀ a ∈ l, ∀ k, h.Adds k → (f a).Ends k (first a) fun k b => R k a b) (hk : h.Adds k) :
    (l.mapM f).Ends k (l.findSome? first) fun k bs => Forall₂ (R k) l bs := by
  induction l generalizing k with
  | nil => exact ⟨[], k, rfl, .refl k, .nil⟩
  | cons a l ih =>
    obtain ⟨head, tail⟩ := forall_mem_cons.1 hf
    have split : (a :: l).findSome? first = (first a).or ((l.findSome? first).or none) := by
      rw [findSome?_cons]
      cases first a <;> simp
    rw [mapM_cons, split]
    refine (head k hk).bind fun b k' ext hb => (ih tail (hk.trans ext)).bind fun bs k'' ext' hbs => ?_
    exact ⟨_, k'', rfl, .refl k'', .cons (extend hb ext') hbs⟩

variable {c : Container} {part : Value → HeapM Value} {walk : Value → List Met}

/-- **The key of a field is checked just before its value is copied.** -/
theorem ends_copiedField {f}
    (hp : (part f.2).Ends k ((walk f.2).findSome? Met.obstacle?) fun k w => h.Copies k f.2 w) :
    (copiedField part f).Ends k ((metIn walk (some f.1, f.2)).findSome? Met.obstacle?) fun k g =>
      (f.1 = g.1 ∧ f.1.isName) ∧ h.Copies k f.2 g.2 := by
  obtain ⟨key, v⟩ := f
  cases key with
  | foreign type text => exact ⟨k, rfl⟩
  | name s =>
    have field : Ends (part v >>= fun w => pure (Key.name s, w)) k
        (((walk v).findSome? Met.obstacle?).or none) fun k g =>
        (Key.name s = g.1 ∧ (Key.name s).isName) ∧ h.Copies k v g.2 :=
      hp.bind fun w k' _ hw => ⟨_, k', rfl, .refl k', ⟨rfl, rfl⟩, hw⟩
    rwa [Option.or_none] at field

lemma ends_copied (hc : h.Has c) (hk : h.Adds k) (hp : ∀ u ∈ h.parts c, ∀ k, h.Adds k →
      (part u).Ends k ((walk u).findSome? Met.obstacle?) fun k w => h.Copies k u w) :
    (copied part c).Ends k
      (((h.entries c).findSome? fun e => (metIn walk e).findSome? Met.obstacle?).or none) fun k x =>
      ∃ d : Container, x = d.datum ∧ k.Has d ∧ h.Mirrors k c d ∧
        Forall₂ (h.Copies k) (h.parts c) (k.parts d) := by
  cases c with
  | array r =>
    change Ends (do
      let items ← (k.array r).toList.mapM part
      return Datum.array (← make (·.newArray items.toArray))) k _ _
    rw [hk.arrays r hc, entries, findSome?_map]
    refine (Ends.mapM (R := fun k u w => h.Copies k u w) Copies.extend hp hk).bind fun items k' _ copies => ?_
    have stored : ((k'.newArray items.toArray).2.array k'.arrays.size) = items.toArray := by
      rw [array_newArray, if_pos rfl]
    refine ⟨_, (k'.newArray items.toArray).2, rfl, .newArray k' _, .array k'.arrays.size, rfl, ?_, ?_, ?_⟩
    · simp [Has, newArray]
    · rw [Mirrors, stored]
      exact copies.length_eq
    · rw [parts, parts, stored]
      exact copies.imp fun _ _ hw => hw.extend (.newArray k' _)
  | record r =>
    change Ends (do
      let fields ← (k.record r).fields.mapM (copiedField part)
      return Datum.record (← make (·.newRecord ⟨fields⟩))) k _ _
    rw [hk.records r hc, entries, findSome?_map]
    refine (Ends.mapM (R := fun k (f g : Key × Value) => (f.1 = g.1 ∧ f.1.isName) ∧ h.Copies k f.2 g.2)
      (fun hr ext => ⟨hr.1, hr.2.extend ext⟩)
      (fun f hf k ext => ends_copiedField (hp f.2 (mem_map_of_mem hf) k ext)) hk).bind
      fun fields k' _ copies => ?_
    obtain ⟨names, values⟩ := Forall₂.keys_values id (copies.imp fun _ _ hc => ⟨hc.1.1, hc.2⟩)
    have stored : (k'.newRecord ⟨fields⟩).2.record k'.records.size = ⟨fields⟩ := by
      rw [record_newRecord, if_pos rfl]
    refine ⟨_, (k'.newRecord ⟨fields⟩).2, rfl, .newRecord k' _, .record k'.records.size, rfl, ?_, ?_, ?_⟩
    · simp [Has, newRecord]
    · rw [Mirrors, stored]
      exact ⟨names, fun f hf => (exists_of_forall₂ copies hf).elim fun _ hg => hg.1.2⟩
    · rw [parts, parts, stored]
      exact values.imp fun _ _ hw => hw.extend (.newRecord k' _)

end HeapM

namespace Heap

open HeapM

variable {h k : Heap} {c : Container} {u v : Value} {l : List Met} {path : List Container} {depth : Nat}

lemma convertWithin_inner (depth : Nat) (raw : ¬ v.isBoxed) (hv : v.inner? = some c) :
    (Met.value v).obstacle? = none ∧
      v.convertWithin (depth + 1) = (do return .boxed (← copied (Value.convertWithin depth) c)) := by
  cases v with
  | boxed => cases raw rfl
  | raw d =>
    have hd : d.container? = some c := hv
    simp only [Met.obstacle?, Value.convertWithin, Value.convertWith, hd, and_self]
  | alien a =>
    cases a <;> cases hv
    exact ⟨rfl, rfl⟩

lemma findSome?_flatMap {α β γ : Type} {walk : α → List β} {f : β → Option γ} {l : List α} :
    (l.flatMap walk).findSome? f = l.findSome? fun u => (walk u).findSome? f := by
  induction l with
  | nil => rfl
  | cons u l ih =>
    rw [flatMap_cons, findSome?_append, findSome?_cons, ih]
    cases (walk u).findSome? f <;> rfl

lemma ends_convertWithin_of_isBoxed (H : h.Walks v l) (hv : v.isBoxed) :
    (v.convertWithin depth).Ends k (l.findSome? Met.obstacle?) fun k u => h.Copies k v u := by
  have clear : l.findSome? Met.obstacle? = none := by
    refine findSome?_eq_none_iff.2 fun x hx => ?_
    have own := H.isOwn hv x hx
    cases x with
    | key key => cases key <;> first | rfl | cases own
    | value u => cases u <;> first | rfl | cases own
  rw [clear]
  cases v with
  | boxed d mark => exact ⟨_, k, by cases depth <;> rfl, .refl k, .boxed d mark⟩
  | raw | alien => cases hv

/-- **Conversion fails at the first obstacle of a walk, and else gives a copy.** -/
theorem ends_convertWithin (H : h.Walks v l) (hk : h.Adds k) (R : h.Room depth path l) :
    (v.convertWithin depth).Ends k (l.findSome? Met.obstacle?) fun k u => h.Copies k v u := by
  induction H generalizing k depth path with
  | @leaf v hv live =>
    obtain ⟨depth, rfl⟩ := exists_depth R.nodup R.has R.depth_eq
    cases v with
    | boxed => exact ends_convertWithin_of_isBoxed (.leaf hv live) rfl
    | raw d =>
      have hd : d.container? = none := hv
      have clear : (Met.value (.raw d)).obstacle? = none := rfl
      rw [findSome?_cons, clear, Value.convertWithin, Value.convertWith, hd]
      exact ⟨_, k, rfl, .refl k, .scalar hd⟩
    | alien a =>
      cases a with
      | tuple => cases hv
      | object type => exact ⟨k, rfl⟩
      | function r type =>
        refine ⟨_, (k.newFunction (k.function r)).2, rfl, .copyFunction k r, .function type ?_ ?_⟩
        · simp [newFunction]
        · rw [function_newFunction, if_pos rfl]
          exact (hk.functions r (live r (.inr ⟨type, rfl⟩))).2
      | integer n =>
        rw [findSome?_cons]
        cases hx : Number.ofInt? n with
        | none =>
          simp only [Met.obstacle?, hx, Value.convertWithin, Value.convertWith]
          exact ⟨k, rfl⟩
        | some x =>
          simp only [Met.obstacle?, hx, Value.convertWithin, Value.convertWith]
          exact ⟨_, k, rfl, .refl k, .integer hx⟩
  | @node v c walk hv live owned parts ih =>
    have whole : h.Walks v _ := .node hv live owned parts
    by_cases boxed : v.isBoxed
    · exact ends_convertWithin_of_isBoxed whole boxed
    obtain ⟨-, depth, rfl, rooms⟩ := R.enter hv whole live parts
    obtain ⟨clear, convert⟩ := convertWithin_inner depth boxed hv
    rw [findSome?_cons, clear, findSome?_flatMap, convert, ← Option.or_none (o := findSome? ..),
      ← Option.or_none (o := Option.or ..)]
    refine (ends_copied live hk fun u hu k ext => ih u hu ext (rooms u hu)).bind fun x k' _ hx => ?_
    obtain ⟨d, rfl, live', form, copies⟩ := hx
    exact ⟨_, k', rfl, .refl k', .container boxed hv live' form fun p hp =>
      (forall₂_iff_zip.1 copies).2 hp⟩

/-! ### Texts of copies -/

lemma mapM_of_forall₂_imp {α β : Type} {f : α → Except Fault String} {g : β → Except Fault String}
    {l m} (hl : Forall₂ (fun a b => ∀ t, f a = .ok t → g b = .ok t) l m) {ts}
    (h : l.mapM f = .ok ts) : m.mapM g = .ok ts := by
  induction hl generalizing ts with
  | nil => exact h
  | cons head _ ih =>
    rw [mapM_cons] at h ⊢
    obtain ⟨t, ht, h⟩ := exists_of_bind_eq_ok h
    obtain ⟨ts', hts, h⟩ := exists_of_bind_eq_ok h
    rw [head t ht, ih hts]
    exact h

lemma contentText_of_parts {f g : Value → Except Fault String} {d s} (form : h.Mirrors k c d)
    (hp : Forall₂ (fun a b => ∀ t, f a = .ok t → g b = .ok t) (h.parts c) (k.parts d))
    (hs : h.contentText f c = .ok s) : k.contentText g d = .ok s := by
  cases c <;> cases d <;> simp only [Mirrors] at form
  · rw [parts, parts] at hp
    obtain ⟨ts, hts, hs⟩ := exists_of_bind_eq_ok hs
    rw [contentText, mapM_of_forall₂_imp hp hts]
    exact hs
  · rw [parts, parts] at hp
    obtain ⟨ts, hts, hs⟩ := exists_of_bind_eq_ok hs
    have fields := Forall₂.entries id form.1 hp
    rw [contentText, mapM_of_forall₂_imp (fields.imp fun a b hab t ht => ?_) hts]
    · exact hs
    · obtain ⟨t', ht', ht⟩ := exists_of_bind_eq_ok ht
      rw [← show a.1 = b.1 from hab.1, hab.2 t' ht']
      exact ht

lemma textWithin_copy {m path'} {depth' : Nat} {nested : Bool} {s} (H : h.Walks v l)
    (hk : h.Adds k) (K : h.Copies k v u) (H' : k.Walks u m) (R : h.Room depth path l)
    (R' : k.Room depth' path' m) (hs : h.textWithin depth path nested v = .ok s) :
    k.textWithin depth' path' nested u = .ok s := by
  induction H generalizing u m depth path depth' path' nested s with
  | @leaf v hv live =>
    have scalar {v u : Value} {d : Datum} (hv : v.Is d) (hu : u.Is d) (hd : d.container? = none)
        (hc : ∀ r, d = .callable r → r < h.functions.size)
        (hs : h.textWithin depth path nested v = .ok s) : k.textWithin depth' path' nested u = .ok s := by
      rw [textWithin_scalar hv hd] at hs
      rw [textWithin_scalar hu hd, ← hs]
      cases d with
      | callable r => rw [scalarText, scalarText, (hk.functions r (hc r rfl)).2]
      | array | record => cases hd
      | _ => rfl
    cases K with
    | boxed d mark =>
      exact scalar (v := .boxed d mark) (d := d) rfl rfl hv (fun r hr => live r (.inl (hr ▸ rfl))) hs
    | @scalar d hd => exact scalar (v := .raw d) (d := d) rfl rfl hd (fun r hr => live r (.inl (hr ▸ rfl))) hs
    | @integer n x hx =>
      have text : Alien.text (.integer n) = .ok s := by cases depth <;> exact hs
      rw [Alien.text, hx] at text
      rw [textWithin_scalar (show Value.Is (.boxed (.number x)) (.number x) from rfl) rfl]
      exact text
    | function => cases depth <;> cases hs
    | container _ hv' => cases hv.symm.trans hv'
  | @node v c walk hv live owned parts ih =>
    obtain ⟨d, mark, rfl, live', form, copies⟩ := K.enter hv live hk owned
    obtain ⟨inside, depth, rfl, rooms⟩ := R.enter hv (.node hv live owned parts) live parts
    cases H' with
    | leaf hu => cases hu.symm.trans d.container?_datum
    | node hu _ owned' parts' =>
      cases hu.symm.trans d.container?_datum
      obtain ⟨inside', depth', rfl, rooms'⟩ := R'.enter hu (.node hu live' owned' parts') live' parts'
      have is : v.Is c.datum := by
        cases v with
        | alien a => cases a <;> cases hv; cases hs
        | boxed e mark | raw e => cases e <;> cases hv <;> rfl
      rw [textWithin_container is inside] at hs
      rw [textWithin_container (show Value.Is (.boxed d.datum mark) d.datum from rfl) inside']
      refine contentText_of_parts form (forall₂_iff_zip.2 ⟨form.length_eq, fun {a b} hab t ht => ?_⟩) hs
      obtain ⟨ha, hb⟩ := of_mem_zip hab
      exact ih a ha ((forall₂_iff_zip.1 copies).2 hab) (parts' b hb) (rooms a ha) (rooms' b hb) ht

/-- **Conversion is faithful.**  A finite value without cycles, in which all that is boxed is the result of
conversion, cannot be converted exactly if there is an obstacle on the walk through it from the left to the
right, and the first one is the error.  Else the result is a copy in which everything is boxed, however
deep, with the boxes of the value as they are.  Converting it again gives the same, without changing
anything; it counts as true if the value does, and has the kind and the text of the value if that has
them. -/
theorem conversion_faithful (H : h.Walks v l) :
    (∀ f, l.findSome? Met.obstacle? = some f → ∃ k, v.convert h = .error f k) ∧
    (l.findSome? Met.obstacle? = none → ∃ u k, v.convert h = .ok u k ∧ h.Adds k ∧ h.Copies k v u ∧
      (∃ m, k.Walks u m ∧ ∀ x ∈ m, x.isOwn) ∧ u.convert k = .ok u k ∧ u.isTrue = v.isTrue ∧
      (∀ kind, v.kind = .ok kind → u.kind = .ok kind) ∧ ∀ s, h.text v = .ok s → k.text u = .ok s) := by
  have ends : Ends v.convert h (l.findSome? Met.obstacle?) fun k u => h.Copies k v u :=
    ends_convertWithin H (.refl h) (.start h l)
  refine ⟨fun f hf => ?_, fun clear => ?_⟩
  · rwa [hf] at ends
  · rw [clear] at ends
    obtain ⟨u, k, hu, ext, copies⟩ := ends
    obtain ⟨boxed, truth, kind⟩ := copies.same_side
    obtain ⟨m, walks⟩ := copies.walks H ext
    refine ⟨u, k, hu, ext, copies, ⟨m, walks, walks.isOwn boxed⟩, ?_, truth, kind, fun s hs =>
      textWithin_copy H ext copies walks (.start h l) (.start k m) hs⟩
    cases u with
    | boxed => rfl
    | raw | alien => cases boxed

/-- An array of the host, with a text and an array of the language in it, is converted with its text.  In a
record of the host, an object stands in the way before the number that is the next key. -/
theorem conversion_faithful_mixed :
    let h : Heap :=
      { arrays := #[#[.raw (.string "a"), .boxed (.array 1) 7], #[.null]]
        records := #[⟨[(.name "x", .alien (.object "object")), (.foreign "int" "1", .null)]⟩] }
    (∃ u k, Value.convert (.raw (.array 0)) h = .ok u k ∧ h.Copies k (.raw (.array 0)) u ∧ u.isBoxed ∧
      k.text u = .ok "[\"a\", [null]]") ∧
    ∃ k, Value.convert (.raw (.record 0)) h = .error (.unconvertible "object") k := by
  intro h
  let walk (u : Value) : List Met := if u.inner?.isSome then [.value u, .value .null] else [.value u]
  have leaf {u : Value} (hu : u.inner? = none) (data : ∀ r, ¬ u.Is (.callable r))
      (inert : ∀ r type, u ≠ .alien (.function r type)) : h.Walks u [.value u] :=
    .leaf hu fun r hr => (hr.elim (data r) fun ⟨type, he⟩ => inert r type he).elim
  have inner : h.Walks (.boxed (.array 1) 7) (walk (.boxed (.array 1) 7)) := by
    refine @Walks.node h _ (.array 1) (fun u => [.value u]) rfl Nat.one_lt_two (fun _ => ⟨rfl, ?_⟩) ?_
    · exact forall_mem_singleton.2 rfl
    · exact forall_mem_singleton.2 (leaf rfl nofun nofun)
  have array : h.Walks (.raw (.array 0))
      (.value (.raw (.array 0)) :: (h.entries (.array 0)).flatMap (metIn walk)) := by
    refine .node rfl Nat.two_pos nofun ?_
    exact forall_mem_cons.2 ⟨leaf rfl nofun nofun, forall_mem_singleton.2 inner⟩
  have record : h.Walks (.raw (.record 0))
      (.value (.raw (.record 0)) :: (h.entries (.record 0)).flatMap (metIn walk)) := by
    refine .node rfl Nat.one_pos nofun ?_
    exact forall_mem_cons.2 ⟨leaf rfl nofun nofun, forall_mem_singleton.2 (leaf rfl nofun nofun)⟩
  obtain ⟨u, k, hu, -, copies, -, -, -, -, text⟩ := (conversion_faithful array).2 rfl
  exact ⟨⟨u, k, hu, copies, copies.same_side.1, text _ rfl⟩, (conversion_faithful record).1 _ rfl⟩

end Heap

end DynScript

import DynScript.Proofs.WrittenData
import Mathlib.Logic.Relation

/-!
# Texts of cyclic data

Arrays and records may share parts and hold themselves.  The text of a value goes into every container,
as often as it is met, but into none that it is inside of already: this one is only indicated.
-/

namespace DynScript

open List

lemma Container.container?_datum (c : Container) : c.datum.container? = some c := by
  cases c <;> rfl

lemma Value.Is.container {v : Value} {c : Container} {d} (hv : v.Is c.datum) (hd : v.Is d) :
    d.container? = some c :=
  hv.unique hd ▸ c.container?_datum

namespace Heap

open Relation

/-- The second container is a part of the first one. -/
def Contains (h : Heap) (c d : Container) : Prop :=
  ∃ v ∈ h.parts c, v.Is d.datum

/-- Nothing that a value leads to leads back to itself. -/
def Acyclic (h : Heap) (v : Value) : Prop :=
  ∀ c : Container, v.Is c.datum → ∀ d, ReflTransGen h.Contains c d →
    ¬ TransGen h.Contains d d

/-- How a value is written inside the containers of `path`: a container with all its parts, and
abbreviated, if allowed, exactly where it is on the path. -/
inductive Writes (h : Heap) (cuts : Prop) :
    List Container → Bool → Value → Except Fault String → Prop where
  | alien {path nested} (a : Alien) : Writes h cuts path nested (.alien a) a.text
  | scalar {path nested} {v : Value} {d : Datum} (hv : v.Is d) (hd : d.container? = none) :
    Writes h cuts path nested v (.ok (h.scalarText nested d))
  | again {path nested} {v : Value} {c : Container} (allowed : cuts) (hv : v.Is c.datum)
    (hc : c ∈ path) : Writes h cuts path nested v (.ok c.ellipsis)
  | content {path nested} {v : Value} {c : Container} {part : Value → Except Fault String}
    (hv : v.Is c.datum) (hc : c ∉ path)
    (hp : ∀ u ∈ h.parts c, Writes h cuts (c :: path) true u (part u)) :
    Writes h cuts path nested v (h.contentText part c)

variable {h : Heap} {cuts : Prop} {path : List Container} {nested : Bool} {v : Value} {c : Container}
  {r : Except Fault String} {depth : Nat}

lemma mapM_congr {α β : Type} {f g : α → Except Fault β} {l : List α}
    (same : ∀ a ∈ l, f a = g a) : l.mapM f = l.mapM g := by
  induction l with
  | nil => rfl
  | cons a l ih =>
    obtain ⟨head, tail⟩ := forall_mem_cons.1 same
    rw [mapM_cons, mapM_cons, head, ih tail]

lemma contentText_congr {part part' : Value → Except Fault String}
    (same : ∀ u ∈ h.parts c, part u = part' u) : h.contentText part c = h.contentText part' c := by
  cases c with
  | array r =>
    simp only [contentText]
    rw [mapM_congr (l := (h.array r).toList) same]
  | record r =>
    have same := forall_mem_map.1 same
    have texts : (h.record r).fields.mapM (fun f => do return f.1.text ++ ": " ++ (← part f.2)) =
        (h.record r).fields.mapM fun f => do return f.1.text ++ ": " ++ (← part' f.2) :=
      mapM_congr fun f hf => by rw [same f hf]
    simp only [contentText, texts]

namespace Writes

lemma allow (H : h.Writes False path nested v r) : h.Writes cuts path nested v r := by
  induction H with
  | alien a => exact .alien a
  | scalar hv hd => exact .scalar hv hd
  | again allowed => exact allowed.elim
  | content hv hc _ ih => exact .content hv hc ih

lemma acc (H : h.Writes False path nested v r) (hv : v.Is c.datum) :
    Acc (fun d c => h.Contains c d) c := by
  induction H generalizing c with
  | alien => cases hv
  | scalar hv' hd =>
    rw [hv.container hv'] at hd
    cases hd
  | again allowed => exact allowed.elim
  | content hv' _ _ ih =>
    cases (Container.container?_datum _).symm.trans (hv.container hv')
    exact .intro _ fun d ⟨u, hu, hd⟩ => ih u hu hd

lemma acyclic (H : h.Writes False path nested v r) : h.Acyclic v := by
  intro c hc d reach cycle
  have ends := H.acc hc
  clear hc
  induction ends with
  | intro c _ ih =>
    obtain ⟨e, he, rest⟩ := TransGen.head'_iff.1 (.trans_right reach cycle)
    exact ih e he rest

lemma uncut (H : h.Writes cuts path nested v r) (ha : h.Acyclic v)
    (hp : ∀ c : Container, v.Is c.datum → ∀ d ∈ path, TransGen h.Contains d c) :
    h.Writes False path nested v r := by
  induction H with
  | alien a => exact .alien a
  | scalar hv hd => exact .scalar hv hd
  | again _ hv hc => exact absurd (hp _ hv _ hc) (ha _ hv _ .refl)
  | content hv hc _ ih =>
    refine .content hv hc fun u hu => ih u hu (fun d hd e reach => ?_) fun d hd e he => ?_
    · exact ha _ hv e (.head ⟨u, hu, hd⟩ reach)
    · have next := TransGen.single (r := h.Contains) ⟨u, hu, hd⟩
      rcases mem_cons.1 he with rfl | he
      · exact next
      · exact (hp _ hv e he).trans next

end Writes

lemma textWithin_scalar {d} (hv : v.Is d) (hd : d.container? = none) :
    h.textWithin depth path nested v = .ok (h.scalarText nested d) := by
  rw [← textWithin_payload, hv]
  cases depth <;> simp only [textWithin, hd] <;> rfl

lemma textWithin_again (hv : v.Is c.datum) (hc : c ∈ path) :
    h.textWithin (depth + 1) path nested v = .ok c.ellipsis := by
  rw [← textWithin_payload, hv]
  cases c <;> exact if_pos (contains_iff_mem.2 hc)

section

variable (hp : path.Nodup) (hh : ∀ c ∈ path, h.Has c) (hd : depth + path.length = h.containers + 1)

include hp hh hd

lemma Writes.eq_textWithin (H : h.Writes cuts path nested v r) :
    r = h.textWithin depth path nested v := by
  obtain ⟨depth, rfl⟩ := exists_depth hp hh hd
  induction H generalizing depth with
  | alien a => rfl
  | scalar hv hc => exact (textWithin_scalar hv hc).symm
  | again _ hv hc => exact (textWithin_again hv hc).symm
  | content hv hc _ ih =>
    rw [textWithin_container hv hc]
    refine contentText_congr fun u hu => ?_
    have longer := nodup_cons.2 ⟨hc, hp⟩
    have known := forall_mem_cons.2 ⟨has_of_parts (ne_nil_of_mem hu), hh⟩
    obtain ⟨d, rfl⟩ := exists_depth longer known (show depth + _ = _ by rw [length_cons]; omega)
    exact ih u hu longer known _ (by rw [length_cons]; omega)

lemma writes_textWithin (v) : h.Writes True path nested v (h.textWithin depth path nested v) := by
  induction depth generalizing path nested v with
  | zero =>
    obtain ⟨d, hd⟩ := exists_depth hp hh hd
    cases hd
  | succ depth ih =>
    have datum {v : Value} {d : Datum} (hv : v.Is d) :
        h.Writes True path nested v (h.textWithin (depth + 1) path nested v) := by
      cases hc : d.container? with
      | none =>
        rw [textWithin_scalar hv hc]
        exact .scalar hv hc
      | some c =>
        obtain rfl : d = c.datum := by cases d <;> cases hc <;> rfl
        by_cases inside : c ∈ path
        · rw [textWithin_again hv inside]
          exact .again trivial hv inside
        · rw [textWithin_container hv inside]
          refine .content hv inside fun u hu => ih (nodup_cons.2 ⟨inside, hp⟩)
            (forall_mem_cons.2 ⟨has_of_parts (ne_nil_of_mem hu), hh⟩) ?_ u
          rw [length_cons]
          omega
    cases v with
    | alien a => exact .alien a
    | boxed d mark | raw d => exact datum rfl

end

/-- **Texts are cut exactly at back edges.**  Every value has exactly one text in which a container is
abbreviated where, and only where, it is on the path to that position, however the containers of the heap
share parts and hold each other, and that is the text that is shown.  It has no abbreviation in it
exactly if the value leads to no cycle. -/
theorem text_cut_at_back_edges (h : Heap) (v : Value) (r : Except Fault String) :
    (h.Writes True [] false v r ↔ h.text v = r) ∧
    (h.Writes False [] false v r ↔ h.text v = r ∧ h.Acyclic v) := by
  have written : h.Writes True [] false v (h.text v) := writes_textWithin .nil (forall_mem_nil _) rfl v
  have one : h.Writes True [] false v r ↔ h.text v = r :=
    ⟨fun H => (H.eq_textWithin .nil (forall_mem_nil _) rfl).symm, fun same => same ▸ written⟩
  refine ⟨one, fun H => ⟨one.1 H.allow, H.acyclic⟩, fun ⟨same, acyclic⟩ => ?_⟩
  exact (same ▸ written).uncut acyclic fun _ _ => forall_mem_nil _

end Heap

end DynScript

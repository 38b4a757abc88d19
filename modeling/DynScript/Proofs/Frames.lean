import DynScript.Machine.Run
import Mathlib.Tactic.Lemma

/-!
# Frames

Frames are made and never taken away; the frame around a frame is older than it, and a variable that a
frame has once it has for ever.
-/

namespace DynScript

open List

lemma lookup_replace {κ α : Type} [DecidableEq κ] (l : List (κ × α)) (k j : κ) (v : α) :
    (l.map fun c => if c.1 = k then (k, v) else c).lookup j =
      if j = k then (l.lookup k).map fun _ => v else l.lookup j := by
  induction l with
  | nil => simp
  | cons c l ih =>
    obtain ⟨i, w⟩ := c
    by_cases hi : i = k
    · subst hi
      by_cases hj : j = i
      · simp [hj]
      · have hji : (j == i) = false := by simpa using hj
        simp [lookup_cons, hji, ih, hj]
    · have hk : (k == i) = false := by simpa using Ne.symm hi
      by_cases hj : j = i
      · subst hj
        simp [hi]
      · have hji : (j == i) = false := by simpa using hj
        simp [lookup_cons, hi, hji, hk, ih]

namespace Frame

variable (f : Frame)

lemma get?_set (id j : Nat) (v) :
    (f.set id v).get? j = if j = id then (f.get? id).map fun _ => v else f.get? j :=
  lookup_replace f.cells id j v

lemma get?_extend (slots) (j : Nat) :
    (f.extend slots).get? j =
      (f.get? j).or (if j ∈ slots.map (·.id) then some .null else none) := by
  unfold Frame.extend
  induction slots generalizing f with
  | nil => simp
  | cons s slots ih =>
    rw [foldl_cons, ih]
    by_cases hs : (f.get? s.id).isSome
    · rw [if_pos hs]
      by_cases hj : j = s.id
      · subst hj
        obtain ⟨v, hv⟩ := Option.isSome_iff_exists.1 hs
        simp [hv]
      · simp [hj]
    · rw [if_neg hs]
      have hs' : f.cells.lookup s.id = none := Option.not_isSome_iff_eq_none.1 hs
      simp only [Frame.get?, lookup_append]
      by_cases hj : j = s.id
      · subst hj
        simp [hs']
      · have : (j == s.id) = false := by simpa using hj
        simp [lookup_cons, this, hj]

lemma parent_set (id : Nat) (v) : (f.set id v).parent = f.parent := rfl

lemma parent_extend (slots) : (f.extend slots).parent = f.parent := by
  unfold Frame.extend
  induction slots generalizing f with
  | nil => rfl
  | cons s slots ih =>
    rw [foldl_cons, ih]
    split <;> rfl

lemma isSome_get?_of_mem {id : Nat} {v} (h : (id, v) ∈ f.cells) : (f.get? id).isSome :=
  lookup_isSome_iff.2 ⟨(id, v), h, by simp⟩

lemma isSome_get?_set (id j : Nat) (v) : ((f.set id v).get? j).isSome = (f.get? j).isSome := by
  rw [get?_set]
  split
  · subst_vars
    simp
  · rfl

lemma isSome_get?_extend {slots} {j : Nat} (h : (f.get? j).isSome) :
    ((f.extend slots).get? j).isSome := by
  rw [get?_extend]
  simp [h]

lemma isSome_get?_extend_self {slots} {slot} (h : slot ∈ slots) :
    ((f.extend slots).get? slot.id).isSome := by
  rw [get?_extend, if_pos (mem_map_of_mem h)]
  simp

end Frame

/-! ### Growing -/

/-- The frame under a reference. -/
def frameAt (F : Array Frame) (r : Nat) : Frame :=
  F.getD r {}

/-- The frames `G` have come out of `F`: none is gone, each has the same frame around it and still
has the variables it had. -/
structure Grows (F G : Array Frame) : Prop where
  size : F.size ≤ G.size
  parent : ∀ r, r < F.size → (frameAt G r).parent = (frameAt F r).parent
  cells : ∀ r, r < F.size → ∀ id, ((frameAt F r).get? id).isSome → ((frameAt G r).get? id).isSome

namespace Grows

variable {F G H : Array Frame}

lemma refl (F) : Grows F F :=
  ⟨Nat.le_refl _, fun _ _ => rfl, fun _ _ _ => id⟩

lemma trans (h : Grows F G) (k : Grows G H) : Grows F H where
  size := Nat.le_trans h.size k.size
  parent r hr := (k.parent r (Nat.lt_of_lt_of_le hr h.size)).trans (h.parent r hr)
  cells r hr id hs := k.cells r (Nat.lt_of_lt_of_le hr h.size) id (h.cells r hr id hs)

lemma frameAt_push (F : Array Frame) (f) (r : Nat) :
    frameAt (F.push f) r = if r = F.size then f else frameAt F r := by
  simp only [frameAt, Array.getD_eq_getD_getElem?, Array.getElem?_push]
  split <;> rfl

lemma frameAt_modify (F : Array Frame) (g : Frame → Frame) (i r : Nat) (hr : r < F.size) :
    frameAt (F.modify i g) r = if i = r then g (frameAt F r) else frameAt F r := by
  simp only [frameAt, Array.getD_eq_getD_getElem?, Array.getElem?_modify, Array.getElem?_eq_getElem hr]
  split <;> simp

lemma push (F) (f) : Grows F (F.push f) where
  size := by simp
  parent r hr := by rw [frameAt_push, if_neg (Nat.ne_of_lt hr)]
  cells r hr id h := by rwa [frameAt_push, if_neg (Nat.ne_of_lt hr)]

lemma modify (F) (i : Nat) {g : Frame → Frame} (hp : ∀ f : Frame, (g f).parent = f.parent)
    (hc : ∀ (f : Frame) (id : Nat), (f.get? id).isSome → ((g f).get? id).isSome) :
    Grows F (F.modify i g) where
  size := by simp
  parent r hr := by
    rw [frameAt_modify F g i r hr]
    split
    · exact hp _
    · rfl
  cells r hr id h := by
    rw [frameAt_modify F g i r hr]
    split
    · exact hc _ id h
    · exact h

lemma set (F) (i : Nat) (id : Nat) (v) : Grows F (F.modify i fun f => f.set id v) :=
  .modify F i (fun f => f.parent_set id v) fun f j h => by rwa [f.isSome_get?_set]

lemma extend (F) (i : Nat) (slots) : Grows F (F.modify i fun f => f.extend slots) :=
  .modify F i (fun f => f.parent_extend slots) fun f _ h => f.isSome_get?_extend h

end Grows

/-! ### Finding variables -/

/-- The frames around a frame are older than it. -/
def Rooted (F : Array Frame) : Prop :=
  ∀ r p : Nat, (frameAt F r).parent = some p → p < r

/-- A variable is seen from a frame: it is in that frame or in one around it. -/
inductive Seen (F : Array Frame) (id : Nat) : Nat → Prop where
  | here {r : Nat} (h : ((frameAt F r).get? id).isSome) : Seen F id r
  | outer {r p : Nat} (h : (frameAt F r).parent = some p) (k : Seen F id p) : Seen F id r

lemma Rooted.push {F} (h : Rooted F) {f : Frame} (hf : ∀ p : Nat, f.parent = some p → p < F.size) :
    Rooted (F.push f) := by
  intro r p hp
  rw [Grows.frameAt_push] at hp
  split at hp
  · subst_vars
    exact hf p hp
  · exact h r p hp

lemma frameAt_of_le {F : Array Frame} {r : Nat} (h : F.size ≤ r) : frameAt F r = {} := by
  simp [frameAt, Array.getD_eq_getD_getElem?, Array.getElem?_eq_none h]

lemma Rooted.of_grows {F G} (h : Rooted F) (g : Grows F G) (hs : G.size = F.size) : Rooted G := by
  intro r p hp
  by_cases hr : r < F.size
  · exact h r p (g.parent r hr ▸ hp)
  · rw [frameAt_of_le (by omega)] at hp
    cases hp

namespace Seen

variable {F G : Array Frame} {id : Nat} {r : Nat}

lemma lt_size (h : Seen F id r) : r < F.size := by
  rcases Nat.lt_or_ge r F.size with hr | hr
  · exact hr
  · cases h with
    | here h => simp [frameAt_of_le hr, Frame.get?] at h
    | outer h _ =>
      rw [frameAt_of_le hr] at h
      cases h

lemma grows (g : Grows F G) (h : Seen F id r) : Seen G id r := by
  induction h with
  | here h => exact .here (g.cells _ (Seen.here h).lt_size _ h)
  | outer h k ih => exact .outer ((g.parent _ (Seen.outer h k).lt_size).trans h) ih

lemma cellWithin_succ (F) (id depth r : Nat) :
    Machine.cellWithin F id (depth + 1) r =
      if ((frameAt F r).get? id).isSome then some ⟨r, id⟩
      else (frameAt F r).parent.bind (Machine.cellWithin F id depth) := rfl

lemma isSome_cellWithin (hF : Rooted F) (h : Seen F id r) {depth : Nat} (hd : r < depth) :
    (Machine.cellWithin F id depth r).isSome := by
  induction h generalizing depth with
  | here h =>
    cases depth with
    | zero => omega
    | succ depth => simp [cellWithin_succ, h]
  | @outer r p h k ih =>
    cases depth with
    | zero => omega
    | succ depth =>
      rw [cellWithin_succ]
      split
      · rfl
      · have := hF r p h
        rw [h, Option.bind_some]
        exact ih (by omega)

end Seen

lemma Machine.cellWithin_eq_some {F} {id depth : Nat} {r} {c}
    (hc : cellWithin F id depth r = some c) : c.id = id ∧ ((frameAt F c.frame).get? id).isSome := by
  induction depth generalizing r with
  | zero => cases hc
  | succ depth ih =>
    rw [Seen.cellWithin_succ] at hc
    split at hc
    · cases hc
      exact ⟨rfl, ‹_›⟩
    · obtain ⟨p, -, hc⟩ := Option.bind_eq_some_iff.1 hc
      exact ih hc

/-- The variables `V` can be found from the frame `r`. -/
structure Covers (F : Array Frame) (r : Nat) (V : List Slot) : Prop where
  lt_size : r < F.size
  seen : ∀ slot ∈ V, Seen F slot.id r

namespace Covers

variable {F G : Array Frame} {r : Nat} {V W : List Slot}

lemma grows (h : Covers F r V) (g : Grows F G) : Covers G r V :=
  ⟨Nat.lt_of_lt_of_le h.lt_size g.size, fun slot hs => (h.seen slot hs).grows g⟩

lemma append (h : Covers F r V) (k : Covers F r W) : Covers F r (V ++ W) :=
  ⟨h.lt_size, fun slot hs => (mem_append.1 hs).elim (h.seen slot) (k.seen slot)⟩

lemma push {f : Frame} (h : Covers F r V) (hp : f.parent = some r)
    (hW : ∀ slot ∈ W, (f.get? slot.id).isSome) : Covers (F.push f) F.size (W ++ V) := by
  have hf : frameAt (F.push f) F.size = f := by rw [Grows.frameAt_push, if_pos rfl]
  refine ⟨by simp, fun slot hs => ?_⟩
  rcases mem_append.1 hs with hs | hs
  · exact .here (by rw [hf]; exact hW slot hs)
  · exact .outer (by rw [hf]; exact hp) ((h.seen slot hs).grows (.push F f))

end Covers

/-! ### Missing variables -/

/-- A look for a number from a frame does not lead to that variable: it comes to another frame with
this number, or to the end. -/
inductive Misses (F : Array Frame) (c : Cell) : Nat → Prop where
  | here {r : Nat} (hr : r ≠ c.frame) (h : ((frameAt F r).get? c.id).isSome) : Misses F c r
  | outer {r p : Nat} (hr : r ≠ c.frame) (h : (frameAt F r).parent = some p) (k : Misses F c p) :
    Misses F c r
  | root {r : Nat} (hr : r ≠ c.frame) (lt : r < F.size) (h : (frameAt F r).parent = none) : Misses F c r

namespace Misses

variable {F G : Array Frame} {c : Cell} {r : Nat}

lemma grows (g : Grows F G) (h : Misses F c r) : Misses G c r := by
  induction h with
  | here hr h => exact .here hr (g.cells _ (Seen.here h).lt_size _ h)
  | @outer r p hr h _ ih =>
    rcases Nat.lt_or_ge r F.size with lt | ge
    · exact .outer hr ((g.parent _ lt).trans h) ih
    · rw [frameAt_of_le ge] at h
      cases h
  | root hr lt h => exact .root hr (Nat.lt_of_lt_of_le lt g.size) ((g.parent _ lt).trans h)

lemma cellWithin_ne (h : Misses F c r) (depth : Nat) : Machine.cellWithin F c.id depth r ≠ some c := by
  induction depth generalizing r with
  | zero => exact fun found => by cases found
  | succ depth ih =>
    have other (hr : r ≠ c.frame) : some (⟨r, c.id⟩ : Cell) ≠ some c :=
      fun e => hr (congrArg Cell.frame (Option.some.inj e))
    rw [Seen.cellWithin_succ]
    split
    · cases h <;> exact other ‹_›
    · rename_i absent
      cases h with
      | here _ h => exact absurd h absent
      | outer _ h k =>
        rw [h]
        exact ih k
      | root _ _ h =>
        rw [h]
        exact fun found => by cases found

/-- **Nothing leads from older frames to a newer one.** -/
theorem of_lt (hF : Rooted F) (h : r < c.frame) (hr : r < F.size) : Misses F c r := by
  induction r using Nat.strongRecOn with
  | ind r ih =>
    cases parent : (frameAt F r).parent with
    | none => exact .root (Nat.ne_of_lt h) hr parent
    | some p =>
      have lt := hF r p parent
      exact .outer (Nat.ne_of_lt h) parent (ih p lt (Nat.lt_trans lt h) (Nat.lt_trans lt hr))

lemma push {f : Frame} (h : Misses F c r) (hc : c.frame < F.size) (hp : f.parent = some r) :
    Misses (F.push f) c F.size := by
  have hf : frameAt (F.push f) F.size = f := by rw [Grows.frameAt_push, if_pos rfl]
  exact .outer (Nat.ne_of_gt hc) (by rw [hf]; exact hp) (h.grows (.push F f))

end Misses

/-- **What is covered is found.** -/
theorem Machine.isSome_cell? {m : Machine} {frame : Nat} {V slot} (hF : Rooted m.frames)
    (h : Covers m.frames frame V) (hs : slot ∈ V) : (m.cell? slot frame).isSome :=
  (h.seen slot hs).isSome_cellWithin hF (Nat.lt_succ_of_lt h.lt_size)

end DynScript

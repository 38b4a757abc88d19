import DynScript.Proofs.ParseRuns
import Mathlib.Data.Bool.Basic
import Mathlib.Order.Bounds.Defs

/-!
# Suggested names

For a name that leads to nothing, the names in sight that are spelled much like it are suggested.  How
much alike two names are is told by the least number of edits between them.
-/

namespace DynScript

open List

namespace Text

/-! ### Edits -/

/-- A single character is put in, taken out or replaced. -/
inductive Edit : List Char → List Char → Prop where
  | insert (before after : List Char) (c : Char) : Edit (before ++ after) (before ++ c :: after)
  | delete (before after : List Char) (c : Char) : Edit (before ++ c :: after) (before ++ after)
  | substitute (before after : List Char) (c d : Char) :
    Edit (before ++ c :: after) (before ++ d :: after)

/-- So many edits turn the first text into the second one. -/
inductive Edits : Nat → List Char → List Char → Prop where
  | none (a : List Char) : Edits 0 a a
  | next {n : Nat} {a b c} (first : Edit a b) (rest : Edits n b c) : Edits (n + 1) a c

variable {a b c s t rest : List Char} {m n : Nat} {x y : Char}

namespace Edit

lemma symm (h : Edit a b) : Edit b a := by
  cases h with
  | insert before after c => exact .delete before after c
  | delete before after c => exact .insert before after c
  | substitute before after c d => exact .substitute before after d c

lemma cons (x) (h : Edit a b) : Edit (x :: a) (x :: b) := by
  cases h with
  | insert before after c => exact .insert (x :: before) after c
  | delete before after c => exact .delete (x :: before) after c
  | substitute before after c d => exact .substitute (x :: before) after c d

lemma reverse (h : Edit a b) : Edit a.reverse b.reverse := by
  cases h with
  | insert before after c => simpa using insert after.reverse before.reverse c
  | delete before after c => simpa using delete after.reverse before.reverse c
  | substitute before after c d => simpa using substitute after.reverse before.reverse c d

end Edit

namespace Edits

lemma trans (h : Edits m a b) (k : Edits n b c) : Edits (m + n) a c := by
  induction h with
  | none a => rwa [Nat.zero_add]
  | next first _ ih =>
    rw [Nat.add_right_comm]
    exact .next first (ih k)

lemma last (h : Edits n a b) (e : Edit b c) : Edits (n + 1) a c :=
  h.trans (.next e (.none c))

lemma symm (h : Edits n a b) : Edits n b a := by
  induction h with
  | none a => exact .none a
  | next first _ ih => exact ih.last first.symm

lemma cons (x) (h : Edits n a b) : Edits n (x :: a) (x :: b) := by
  induction h with
  | none a => exact .none _
  | next first _ ih => exact .next (first.cons x) ih

lemma reverse (h : Edits n a b) : Edits n a.reverse b.reverse := by
  induction h with
  | none a => exact .none _
  | next first _ ih => exact .next first.reverse ih

lemma fewer (h : Edits m a b) (k : Edits n a b) : Edits (min m n) a b := by
  rw [Nat.min_def]
  split <;> assumption

lemma ofNil (b : List Char) : Edits b.length [] b := by
  induction b with
  | nil => exact .none []
  | cons c b ih => exact ih.last (.insert [] b c)

end Edits

/-! ### The least number of edits -/

/-- The least number of edits between two texts, both written backwards: a last character is taken
out, put in, or replaced. -/
def distance : List Char → List Char → Nat
  | [], b => b.length
  | x :: a, [] => a.length + 1
  | x :: a, y :: b =>
    min (min (distance a (y :: b) + 1) (distance (x :: a) b + 1))
      (distance a b + if x = y then 0 else 1)
termination_by a b => a.length + b.length

lemma distance_nil (a) : distance a [] = a.length := by
  cases a <;> simp [distance]

lemma nil_distance (b) : distance [] b = b.length := by
  rw [distance]

lemma cons_distance_cons (x y a b) : distance (x :: a) (y :: b) =
    min (min (distance a (y :: b) + 1) (distance (x :: a) b + 1))
      (distance a b + if x = y then 0 else 1) := by
  rw [distance]

lemma edits_distance (a b) : Edits (distance a b) a b := by
  fun_induction distance a b with
  | case1 b => exact .ofNil b
  | case2 x a => exact (Edits.ofNil (x :: a)).symm
  | case3 x a y b deleted inserted replaced =>
    have replaced : Edits (distance a b + if x = y then 0 else 1) (x :: a) (y :: b) := by
      split
      · subst y
        exact replaced.cons x
      · exact (replaced.cons x).last (.substitute [] b x y)
    have deleted := Edits.next (.delete [] a x) deleted
    exact (deleted.fewer (inserted.last (.insert [] b y))).fewer replaced

lemma distance_self (a) : distance a a = 0 := by
  induction a with
  | nil => rw [nil_distance, length_nil]
  | cons x a ih => simp [cons_distance_cons, ih]

lemma distance_le_cons (a b y) : distance a (y :: b) ≤ distance a b + 1 := by
  cases a with
  | nil => simp [nil_distance]
  | cons x a =>
    rw [cons_distance_cons]
    omega

lemma cons_distance_le (x) (h : ∀ c, distance a c ≤ distance b c + 1) (c) :
    distance (x :: a) c ≤ distance (x :: b) c + 1 := by
  induction c with
  | nil =>
    have := h []
    simp only [distance_nil, length_cons] at this ⊢
    omega
  | cons y c ih =>
    have deleted := h (y :: c)
    have replaced := h c
    simp only [cons_distance_cons]
    omega

/-- An edit brings a text nearer to another one by no more than one. -/
lemma Edit.distance_le (h : Edit a b) (c) : distance a c ≤ distance b c + 1 := by
  have behind {a b : List Char} (before : List Char) (h : ∀ c, distance a c ≤ distance b c + 1) :
      ∀ c, distance (before ++ a) c ≤ distance (before ++ b) c + 1 := by
    induction before with
    | nil => exact h
    | cons x before ih => exact cons_distance_le x ih
  cases h with
  | insert before after x =>
    refine behind before (fun c => ?_) c
    induction c with
    | nil =>
      simp only [distance_nil, length_cons]
      omega
    | cons y c ih =>
      have := distance_le_cons after c y
      rw [cons_distance_cons]
      omega
  | delete before after x =>
    refine behind before (fun c => ?_) c
    cases c with
    | nil => simp [distance_nil]
    | cons y c =>
      rw [cons_distance_cons]
      omega
  | substitute before after x z =>
    refine behind before (fun c => ?_) c
    induction c with
    | nil => simp [distance_nil]
    | cons y c ih =>
      simp only [cons_distance_cons]
      split <;> split <;> omega

lemma Edits.distance_le (h : Edits n a b) : distance a b ≤ n := by
  induction h with
  | none a => exact Nat.le_of_eq (distance_self a)
  | next first _ ih => exact Nat.le_trans (first.distance_le _) (Nat.succ_le_succ ih)

/-! ### The rows -/

/-- The distances from `s` to `t`, and to what `t` is with further characters, both written backwards. -/
def row (s : List Char) : List Char → List Char → List Nat
  | t, [] => [distance s t]
  | t, y :: rest => distance s t :: row s (y :: t) rest

lemma row_eq_cons (s t rest) : row s t rest = distance s t :: (row s t rest).tail := by
  cases rest <;> rfl

lemma rowAfter_row (x s t rest) :
    rowAfter x (distance (x :: s) t) rest (row s t rest) = (row (x :: s) t rest).tail := by
  induction rest generalizing t with
  | nil => rfl
  | cons y rest ih =>
    have cell : min (min (distance s (y :: t) + 1) (distance (x :: s) t + 1))
        (distance s t + if x = y then 0 else 1) = distance (x :: s) (y :: t) :=
      (cons_distance_cons x y s t).symm
    have next := ih (y :: t)
    rw [row_eq_cons s (y :: t)] at next
    rw [row, row_eq_cons s (y :: t), rowAfter, cell, next, row, tail_cons, ← row_eq_cons]

lemma nextRow_row (x s target) : nextRow target (row s [] target) x = row (x :: s) [] target := by
  have first : distance s [] + 1 = distance (x :: s) [] := by simp [distance_nil]
  have next := rowAfter_row x s [] target
  rw [row_eq_cons s] at next ⊢
  rw [nextRow, first, next, ← row_eq_cons]

lemma row_nil (t rest) : row [] t rest = List.range' t.length (rest.length + 1) := by
  induction rest generalizing t with
  | nil => simp [row, nil_distance]
  | cons y rest ih =>
    rw [row, ih, nil_distance, length_cons, length_cons, range'_succ (n := rest.length + 1)]

lemma foldl_nextRow (source s target : List Char) :
    source.foldl (nextRow target) (row s [] target) = row (source.reverse ++ s) [] target := by
  induction source generalizing s with
  | nil => rfl
  | cons x source ih =>
    rw [foldl_cons, nextRow_row, ih, reverse_cons, append_assoc]
    rfl

lemma getLastD_row (s t rest) (i : Nat) :
    (row s t rest).getLastD i = distance s (rest.reverse ++ t) := by
  induction rest generalizing t i with
  | nil => rfl
  | cons y rest ih =>
    rw [row, getLastD_cons, ih, reverse_cons, append_assoc]
    rfl

lemma lastCell_eq (source target) :
    lastCell source target = distance source.reverse target.reverse := by
  have first : List.range (target.length + 1) = row [] [] target := by
    rw [row_nil, range_eq_range', length_nil]
  rw [lastCell, first, foldl_nextRow, getLastD_row, append_nil, append_nil]

lemma isLeast_lastCell (a b) : IsLeast {n | Edits n a b} (lastCell a b) := by
  rw [lastCell_eq]
  have enough := (edits_distance a.reverse b.reverse).reverse
  rw [reverse_reverse, reverse_reverse] at enough
  exact ⟨enough, fun n h => h.reverse.distance_le⟩

/-- The edit distance is the least number of edits, whichever of the texts makes the rows. -/
lemma isLeast_editDistance (a b) : IsLeast {n | Edits n a b} (editDistance a b) := by
  unfold editDistance
  split
  · obtain ⟨enough, least⟩ := isLeast_lastCell b a
    exact ⟨enough.symm, fun n h => least h.symm⟩
  · exact isLeast_lastCell a b

end Text

/-! ### The order of suggestions -/

section

variable {α : Type} (key : α → Nat) (l : List α)

lemma pairwise_mergeSort_key : (l.mergeSort fun a b => key a ≤ key b).Pairwise (key · ≤ key ·) := by
  have sorted : (l.mergeSort fun a b => key a ≤ key b).Pairwise fun a b => decide (key a ≤ key b) = true :=
    pairwise_mergeSort (fun a b c => by simpa using Nat.le_trans)
      (fun a b => by simpa using Nat.le_total _ _) l
  simpa using sorted

/-- Sorting leaves what has the same key in its order. -/
lemma filter_mergeSort_key (k : Nat) :
    (l.mergeSort fun a b => key a ≤ key b).filter (key · = k) = l.filter (key · = k) := by
  have equal : (l.filter (key · = k)).Pairwise fun a b => decide (key a ≤ key b) = true := by
    refine pairwise_of_forall_mem_list fun a ha b hb => ?_
    simp_all
  have kept := (sublist_mergeSort (fun a b c => by simpa using Nat.le_trans)
    (fun a b => by simpa using Nat.le_total _ _) equal filter_sublist).filter (key · = k)
  rw [filter_filter] at kept
  have size := ((l.mergeSort_perm fun a b => decide (key a ≤ key b)).filter (key · = k)).length_eq
  simp only [Bool.and_self] at kept
  exact (kept.eq_of_length size.symm).symm

end

lemma idxOf_lt_of_filter {p : String → Bool} {l : List String} {a b} (ha : p a) (hb : p b)
    (h : (l.filter p).idxOf a < (l.filter p).idxOf b) : l.idxOf a < l.idxOf b := by
  induction l with
  | nil => exact h
  | cons x l ih =>
    rw [filter_cons] at h
    grind

/-- Every name is met once, in the order in which the names are first met. -/
lemma pairwise_eraseDups (l : List String) :
    l.eraseDups.Pairwise fun a b => l.idxOf a < l.idxOf b := by
  induction hn : l.length using Nat.strongRecOn generalizing l with
  | ind n ih =>
    cases l with
    | nil => exact .nil
    | cons x l =>
      have shorter := length_filter_le (fun y => !y == x) l
      rw [eraseDups_cons]
      have others {a : String} (ha : a ∈ (l.filter fun y => !y == x).eraseDups) : a ≠ x := by
        simpa using (mem_filter.1 (mem_eraseDups.1 ha)).2
      have later {a : String} (ha : a ≠ x) : (x :: l).idxOf a = l.idxOf a + 1 := by
        rw [idxOf_cons, beq_false_of_ne ha.symm, cond_false]
      refine .cons (fun a ha => ?_) ?_
      · simp [later (others ha)]
      · refine (ih _ (by simp only [length_cons] at hn; omega) _ rfl).imp_of_mem fun ha hb h => ?_
        rw [later (others ha), later (others hb)]
        exact Nat.succ_lt_succ (idxOf_lt_of_filter (by simpa using others ha) (by simpa using others hb) h)

namespace ScopeTable

/-- A new variable stands behind those of its scope and in front of those around it. -/
lemma names_define {t u : ScopeTable} {name location} {constant : Bool} {slot}
    (h : t.define name location constant = (.ok slot, u)) :
    ∃ outer, t.names = t.current.slots.map (·.name) ++ outer ∧
      u.names = t.current.slots.map (·.name) ++ name :: outer := by
  obtain ⟨-, rfl, rfl⟩ := ok_of_define h
  refine ⟨(t.around ++ [t.linked]).flatMap fun s => s.slots.map (·.name), ?_, ?_⟩ <;>
    rw [names, chain_eq, flatMap_cons]
  simp only [current_setCurrent, around_setCurrent, linked_setCurrent, Scope.addSlot, map_append]
  rw [append_assoc]
  rfl

/-- **The nearest names in sight are suggested.**  The distance of two texts is the least number of edits
that turn the one into the other.  The names suggested are the first five of those in sight whose
distance, in small letters, from the name that was meant is within the limit, each listed once, the
nearest first; equally near ones stand in the order in which they are first met from the innermost scope
on, and in a scope in the order of their declarations. -/
theorem similar_names (t : ScopeTable) (name : String) (limit : Int) :
    (∀ a b : List Char, IsLeast {n | Text.Edits n a b} (Text.editDistance a b)) ∧
    (∀ location constant slot u, t.define name location constant = (.ok slot, u) →
      ∃ outer, t.names = t.current.slots.map (·.name) ++ outer ∧
        u.names = t.current.slots.map (·.name) ++ name :: outer) ∧
    let away (n : String) := Text.editDistance (Text.lower name).toList (Text.lower n).toList
    ∃ l : List String, t.similar name limit = l.take 5 ∧
      (∀ n, n ∈ l ↔ n ∈ t.names ∧ (away n : Int) ≤ limit) ∧
      l.Pairwise fun a b => away a < away b ∨
        away a = away b ∧ t.names.idxOf a < t.names.idxOf b := by
  refine ⟨Text.isLeast_editDistance, fun _ _ _ _ => names_define, ?_⟩
  intro away
  let near := t.names.eraseDups.filter fun n => (away n : Int) ≤ limit
  refine ⟨near.mergeSort fun a b => away a ≤ away b, ?_, fun n => ?_, ?_⟩
  · have measured : (t.names.eraseDups.map fun n => (n, away n)).filter
        (fun m => (m.2 : Int) ≤ limit) = near.map fun n => (n, away n) := by
      rw [filter_map]
      rfl
    unfold similar
    dsimp only
    rw [measured, ← map_mergeSort (r := fun a b => decide (away a ≤ away b)) (by simp),
      map_take, map_map]
    exact congrArg (List.take 5) (map_id' _)
  · rw [mem_mergeSort]
    simp [near]
  · rw [pairwise_iff_forall_sublist]
    intro a b h
    have order : away a ≤ away b :=
      pairwise_iff_forall_sublist.1 (pairwise_mergeSort_key away near) h
    rcases Nat.lt_or_eq_of_le order with nearer | same
    · exact .inl nearer
    · have alike := h.filter (away · = away b)
      rw [filter_mergeSort_key] at alike
      refine .inr ⟨same, ?_⟩
      have first := (pairwise_eraseDups t.names).sublist
        (filter_sublist.trans filter_sublist : (near.filter (away · = away b)).Sublist _)
      simp only [filter_cons, same, decide_true, if_true, filter_nil] at alike
      exact pairwise_iff_forall_sublist.1 first alike

/-- Where `count` is in sight, `mount` is declared behind it, and `count` is suggested for it. -/
theorem similar_names_mount :
    let t := (({} : ScopeTable).define "count" none false).2
    ∃ slot u outer, t.define "mount" none false = (.ok slot, u) ∧ u.names = "count" :: "mount" :: outer ∧
      Text.Edits 1 "mount".toList "count".toList ∧ t.similar "mount" 2 = ["count"] := by
  intro t
  obtain ⟨least, declared, -⟩ := similar_names t "mount" 2
  obtain ⟨outer, -, names⟩ := declared none false _ _ rfl
  have near : Text.editDistance "mount".toList "count".toList = 1 := by decide +kernel
  exact ⟨_, _, outer, rfl, names, near ▸ (least _ _).1, by decide +kernel⟩

end ScopeTable

end DynScript

import DynScript.Machine.Library
import DynScript.Proofs.WrittenCycles
import Mathlib

/-!
# Lines written to files

A file is written with one line for each item of an array, and read as the lines of its whole text, with
its line breaks unified first.
-/

namespace DynScript

open List

/-! ### Lines of texts -/

namespace Text

lemma unifyBreaks_cons {c} {cs : List Char} (h : ¬ (c = '\r' ∧ cs.head? = some '\n')) :
    unifyBreaks (c :: cs) = (if c = '\r' then '\n' else c) :: unifyBreaks cs := by
  rw [unifyBreaks]
  rintro cs rfl rfl
  exact h ⟨rfl, rfl⟩

lemma linesFrom_cons {line cs : List Char} {c} (h : ¬ (c = '\r' ∧ cs.head? = some '\n')) :
    linesFrom line (c :: cs) =
      if isLineBreak c then line.reverse :: linesFrom [] cs else linesFrom (c :: line) cs := by
  rw [linesFrom]
  rintro cs rfl rfl
  exact h ⟨rfl, rfl⟩

lemma apart_append {c a} (single : ∀ cs, c = '\r' → a = '\n' :: cs → False)
    (h : ¬ (c = '\r' ∧ a = [])) (b) : ¬ (c = '\r' ∧ (a ++ '\n' :: b).head? = some '\n') := by
  rintro ⟨hc, hd⟩
  cases a with
  | nil => exact h ⟨hc, rfl⟩
  | cons d a => exact single a hc (by rw [Option.some.inj hd])

lemma unifyBreaks_append (a b) :
    unifyBreaks (a ++ '\n' :: b) = unifyBreaks (a ++ ['\n']) ++ unifyBreaks b := by
  induction a using unifyBreaks.induct with
  | case1 => rfl
  | case2 a ih => simp [unifyBreaks, ih]
  | case3 c a single ih =>
    by_cases last : c = '\r' ∧ a = []
    · obtain ⟨rfl, rfl⟩ := last
      rfl
    · have apart := apart_append single last
      rw [cons_append, cons_append, unifyBreaks_cons (apart b), unifyBreaks_cons (apart []), ih,
        cons_append]

lemma linesFrom_append (line a b) :
    linesFrom line (a ++ '\n' :: b) = linesFrom line (a ++ ['\n']) ++ linesFrom [] b := by
  induction a using unifyBreaks.induct generalizing line with
  | case1 => simp [linesFrom, isLineBreak]
  | case2 a ih => simp [linesFrom, ih]
  | case3 c a single ih =>
    by_cases last : c = '\r' ∧ a = []
    · obtain ⟨rfl, rfl⟩ := last
      rfl
    · have apart := apart_append single last
      rw [cons_append, cons_append, linesFrom_cons (apart b), linesFrom_cons (apart []), ih, ih]
      split <;> rfl

lemma exists_unifyBreaks (a) : ∃ l, unifyBreaks (a ++ ['\n']) = l ++ ['\n'] := by
  induction a using unifyBreaks.induct with
  | case1 => exact ⟨[], rfl⟩
  | case2 a ih =>
    obtain ⟨l, hl⟩ := ih
    exact ⟨'\n' :: l, by simp [unifyBreaks, hl]⟩
  | case3 c a single ih =>
    by_cases last : c = '\r' ∧ a = []
    · obtain ⟨rfl, rfl⟩ := last
      exact ⟨[], rfl⟩
    · obtain ⟨l, hl⟩ := ih
      exact ⟨_ :: l, by rw [cons_append, unifyBreaks_cons (apart_append single last []), hl]; rfl⟩

/-- The lines of texts that are written one after the other, each with a line break behind it. -/
lemma lines_join (texts : List String) :
    lines (withLineFeeds (String.join (texts.map (· ++ "\n")))) =
      texts.flatMap fun t => lines (withLineFeeds (t ++ "\n")) := by
  induction texts with
  | nil => rfl
  | cons t texts ih =>
    obtain ⟨l, hl⟩ := exists_unifyBreaks t.toList
    have first (b : List Char) :
        linesFrom [] (unifyBreaks (t.toList ++ '\n' :: b)) =
          linesFrom [] (unifyBreaks (t.toList ++ ['\n'])) ++ linesFrom [] (unifyBreaks b) := by
      rw [unifyBreaks_append, hl, append_assoc]
      exact linesFrom_append [] l _
    have joined : (String.join ((t :: texts).map (· ++ "\n"))).toList =
        t.toList ++ '\n' :: (String.join (texts.map (· ++ "\n"))).toList := by simp
    rw [flatMap_cons, ← ih]
    simp only [lines, withLineFeeds, String.toList_ofList, joined]
    rw [first, map_append, String.toList_append]
    rfl

lemma lines_of_unbroken {t : String} (h : ∀ c ∈ t.toList, isLineBreak c = false) :
    lines (withLineFeeds (t ++ "\n")) = [t] := by
  have unified : unifyBreaks (t.toList ++ ['\n']) = t.toList ++ ['\n'] := by
    generalize t.toList = l at h
    induction l with
    | nil => rfl
    | cons c l ih =>
      obtain ⟨hc, hl⟩ := forall_mem_cons.1 h
      have plain : c ≠ '\r' := by
        rintro rfl
        cases hc
      rw [cons_append, unifyBreaks_cons (fun k => plain k.1), if_neg plain, ih hl]
  have cut (line l : List Char) (h : ∀ c ∈ l, isLineBreak c = false) :
      linesFrom line (l ++ ['\n']) = [line.reverse ++ l] := by
    induction l generalizing line with
    | nil => simp [linesFrom, isLineBreak]
    | cons c l ih =>
      obtain ⟨hc, hl⟩ := forall_mem_cons.1 h
      have plain : c ≠ '\r' := by
        rintro rfl
        cases hc
      rw [cons_append, linesFrom_cons (fun k => plain k.1), hc, if_neg Bool.false_ne_true, ih _ hl]
      simp
  simp [lines, withLineFeeds, unified, cut [] _ h]

end Text

/-! ### Files -/

lemma lookup_map_replaced (l : List (List String × FileEntry)) (names other entry) :
    (l.map fun e => if e.1 = names then (names, entry) else e).lookup other =
      if other = names then (l.lookup names).map fun _ => entry else l.lookup other := by
  induction l with
  | nil => simp
  | cons e l ih =>
    rw [map_cons, lookup_cons, lookup_cons, lookup_cons, ih]
    grind

namespace Files

variable {fs : Files} {names : List String} {path : String} {r : Route}

section

variable (anchored : isAnchor names = false)
include anchored

/-- After a file was written, it is there, and all others are as they were. -/
lemma find_put (entry other) :
    entry? (fs.put names entry) other = if other = names then some entry else fs.entry? other := by
  have found : (fs.put names entry).entries.lookup other =
      if other = names then some entry else fs.entries.lookup other := by
    unfold put
    split
    · rename_i known
      obtain ⟨old, ho⟩ := Option.isSome_iff_exists.1 known
      rw [lookup_map_replaced, ho]
      rfl
    · rename_i new
      have new := Option.not_isSome_iff_eq_none.1 new
      rw [lookup_append]
      grind
  unfold entry?
  rw [found]
  grind

variable {content : FileContent}

lemma enter_put {directory next name} (plain : fs.entry? names ≠ some .directory)
    (h : fs.enter directory name = .ok next) :
    (fs.put names (.file content)).enter directory name = .ok next := by
  unfold enter at h ⊢
  rw [find_put anchored]
  grind

lemma foldlM_enter_put (plain : fs.entry? names ≠ some .directory) {l directory next : List String}
    (h : l.foldlM fs.enter directory = .ok next) :
    l.foldlM (fs.put names (.file content)).enter directory = .ok next := by
  induction l generalizing directory with
  | nil => exact h
  | cons name l ih =>
    rw [foldlM_cons] at h ⊢
    cases hd : fs.enter directory name with
    | error e =>
      rw [hd] at h
      cases h
    | ok d =>
      rw [hd] at h
      rw [enter_put anchored plain hd]
      exact ih h

lemma resolve_put {directory} (plain : fs.entry? names ≠ some .directory)
    (h : fs.resolve path = .ok (r, directory)) :
    (fs.put names (.file content)).resolve path = .ok (r, directory) := by
  unfold resolve at h ⊢
  split at h
  · cases h
  split at h
  · cases h
  split at h
  · cases h
  rw [if_neg ‹_›, if_neg ‹_›, if_neg ‹_›]
  dsimp only at h ⊢
  cases hd : (Route.ofString path).through.foldlM fs.enter (Route.ofString path).start with
  | error e =>
    rw [hd] at h
    cases h
  | ok d => rwa [foldlM_enter_put anchored plain hd, ← hd]

end

lemma target_eq_ok (h : fs.target path = .ok names) :
    ∃ r directory, fs.resolve path = .ok (r, directory) ∧ r.closed = false ∧
      isDirectoryName r.last = false ∧ ¬ nameLimit < r.last.utf8ByteSize ∧
      names = directory ++ [r.last] ∧ fs.entry? names ≠ some .directory := by
  unfold target at h
  cases hr : fs.resolve path with
  | error e =>
    rw [hr] at h
    cases h
  | ok found =>
    obtain ⟨r, directory⟩ := found
    rw [hr] at h
    change (if (r.closed || isDirectoryName r.last) = true then _ else _) = _ at h
    split at h
    · cases h
    rename_i named
    obtain ⟨opened, named⟩ := Bool.or_eq_false_iff.1 (Bool.eq_false_iff.2 named)
    split at h
    · cases h
    split at h <;> cases h
    exact ⟨r, directory, rfl, opened, named, ‹_›, rfl, ‹_›⟩

lemma isAnchor_eq_false (plain : fs.entry? names ≠ some .directory) : isAnchor names = false := by
  cases anchored : isAnchor names with
  | false => rfl
  | true => exact absurd (if_pos anchored) plain

/-- **A file that was written is read back**, with its line breaks unified. -/
theorem read_put (h : fs.target path = .ok names) (s) :
    (fs.put names (.file (.text s))).read path = .ok (Text.withLineFeeds s) := by
  obtain ⟨r, directory, hr, opened, named, short, rfl, plain⟩ := target_eq_ok h
  have anchored := isAnchor_eq_false plain
  have entry : entry? (fs.put (directory ++ [r.last]) (.file (.text s))) (directory ++ [r.last]) =
      some (.file (.text s)) := by
    rw [find_put anchored, if_pos rfl]
  unfold read
  rw [resolve_put anchored plain hr]
  change (if isDirectoryName r.last = true then _ else _) = _
  rw [if_neg (Bool.eq_false_iff.1 named), if_neg short, entry]
  exact if_neg (Bool.eq_false_iff.1 opened)

lemma write_eq_ok (h : fs.target path = .ok names) (s) :
    fs.write path s = .ok (fs.put names (.file (.text s))) := by
  rw [write, h]
  rfl

end Files

/-! ### Texts of arrays -/

lemma exists_mapM_eq_ok {α β : Type} {f : α → Except Fault β} {l : List α}
    (h : ∀ a ∈ l, ∃ b, f a = .ok b) : ∃ bs, l.mapM f = .ok bs := by
  induction l with
  | nil => exact ⟨[], rfl⟩
  | cons a l ih =>
    obtain ⟨head, tail⟩ := forall_mem_cons.1 h
    obtain ⟨b, hb⟩ := head
    obtain ⟨bs, hbs⟩ := ih tail
    exact ⟨b :: bs, by rw [mapM_cons, hb, hbs]; rfl⟩

namespace Heap

open Relation

variable {h : Heap} {c : Container} {v : Value}

lemma exists_contentText {part : Value → Except Fault String}
    (hp : ∀ u ∈ h.parts c, ∃ s, part u = .ok s) : ∃ s, h.contentText part c = .ok s := by
  cases c with
  | array r =>
    obtain ⟨items, hi⟩ := exists_mapM_eq_ok (l := (h.array r).toList) hp
    exact ⟨_, by rw [contentText, hi]; rfl⟩
  | record r =>
    obtain ⟨fs, hf⟩ : ∃ ts, (h.record r).fields.mapM
        (fun f => do return f.1.text ++ ": " ++ (← part f.2)) = .ok ts := by
      refine exists_mapM_eq_ok fun f hf => ?_
      obtain ⟨s, hs⟩ := forall_mem_map.1 hp f hf
      exact ⟨_, by rw [hs]; rfl⟩
    exact ⟨_, by rw [contentText, hf]; rfl⟩

/-- All that can be reached from a container is of the language. -/
def Owns (h : Heap) (c : Container) : Prop :=
  ∀ d, ReflTransGen h.Contains c d → ∀ v ∈ h.parts d, v.isBoxed

lemma exists_textWithin (hv : v.isBoxed) (hc : ∀ c : Container, v.Is c.datum → h.Owns c)
    (depth : Nat) (path) (nested : Bool) : ∃ s, h.textWithin depth path nested v = .ok s := by
  induction depth generalizing path nested v with
  | zero =>
    cases v with
    | raw | alien => cases hv
    | boxed d mark =>
      unfold textWithin
      cases d.container? <;> exact ⟨_, rfl⟩
  | succ depth ih =>
    cases v with
    | raw | alien => cases hv
    | boxed d mark =>
      cases hd : d.container? with
      | none => exact ⟨_, textWithin_scalar rfl hd⟩
      | some c =>
        obtain rfl : d = c.datum := by cases d <;> cases hd <;> rfl
        have datum : (Value.boxed c.datum mark).Is c.datum := rfl
        by_cases inside : c ∈ path
        · exact ⟨_, textWithin_again datum inside⟩
        · rw [textWithin_container datum inside]
          refine exists_contentText fun u hu => ih (hc c datum c .refl u hu) (fun e he => ?_) _ _
          exact fun d reach => hc c datum d (.head ⟨u, hu, he⟩ reach)

end Heap

namespace Machine

open Relation

/-- **Written lines are read back.**  Writing the lines of an array of the language to a path that can be
written gives null, without a warning, and changes no file but the one the path leads to.  Whenever the
files are like that, reading the lines of that path gives, without a warning, a new array: that of the
lines of each item, with a line break behind it and its breaks unified, one item after the other.  If no
item has a line break in it, these are the texts of the items. -/
theorem written_lines_read_back (m : Machine) (path : String) (r : Ref) (names : List String)
    (owned : m.heap.Owns (.array r)) (writable : m.world.files.target path = .ok names) :
    ∃ texts files, (m.heap.array r).toList.mapM m.heap.text = .ok texts ∧
      (∀ i j place, m.callBuiltin .fileWriteAllLines [.boxed (.string path) i, .boxed (.array r) j] place =
        { m with world := { m.world with files := files }, control := .give .null }) ∧
      (∀ other ≠ names, files.entry? other = m.world.files.entry? other) ∧
      let lines := texts.flatMap fun t => Text.lines (Text.withLineFeeds (t ++ "\n"))
      (∀ (n : Machine) (i : Nat) (place : Option Location), n.world.files = files →
        n.callBuiltin .fileReadAllLines [.boxed (.string path) i] place =
          { n with
            heap := (n.heap.newArray (lines.map fun l => .boxed (.string l)).toArray).2
            control := .give (.boxed (.array n.heap.arrays.size)) }) ∧
      ((∀ t ∈ texts, ∀ c ∈ t.toList, Text.isLineBreak c = false) → lines = texts) := by
  obtain ⟨texts, ht⟩ : ∃ texts, (m.heap.array r).toList.mapM m.heap.text = .ok texts := by
    refine exists_mapM_eq_ok fun v hv => Heap.exists_textWithin (owned _ .refl v hv) (fun c hc => ?_) _ _ _
    exact fun d reach => owned d (.head ⟨v, hv, hc⟩ reach)
  obtain ⟨r', directory, hr, opened, named, short, rfl, plain⟩ := Files.target_eq_ok writable
  let content := String.join (texts.map (· ++ "\n"))
  refine ⟨texts, m.world.files.put (directory ++ [r'.last]) (.file (.text content)), ht, fun i j place => ?_,
    fun other ho => ?_, fun n i place hn => ?_, fun unbroken => ?_⟩
  · have written : linesOf m.heap (m.heap.array r).toList = .ok content := by
      rw [linesOf, ht]
      rfl
    simp only [callBuiltin, writeTo, getD_cons_zero, getD_cons_succ, Value.string?, Value.datum?,
      written, writeFile, Files.write_eq_ok writable]
    rfl
  · rw [Files.find_put (Files.isAnchor_eq_false plain), if_neg ho]
  · have back : n.world.files.read path = .ok (Text.withLineFeeds content) := by
      rw [hn]
      exact Files.read_put writable content
    simp only [callBuiltin, readFile, getD_cons_zero, Value.string?, Value.datum?, back]
    rw [Text.lines_join]
    rfl
  · rw [flatMap_congr fun t h => Text.lines_of_unbroken (unbroken t h)]
    simp

/-- An array of `a`, a line feed and `b`, and nothing, is read back as the lines `a`, an empty one, `b` and an
empty one. -/
theorem written_lines_read_back_broken :
    let m : Machine := { heap := { arrays := #[#[.boxed (.string "a"), .boxed (.string "\r\nb"),
      .boxed (.string "")]] } }
    m.heap.Owns (.array 0) ∧ m.world.files.target "f" = .ok ["f"] ∧
      ∃ files : Files, (∀ i j place, m.callBuiltin .fileWriteAllLines
          [.boxed (.string "f") i, .boxed (.array 0) j] place =
        { m with world := { m.world with files := files }, control := .give .null }) ∧
      ∀ (n : Machine) (i : Nat) (place : Option Location), n.world.files = files →
        n.callBuiltin .fileReadAllLines [.boxed (.string "f") i] place =
          { n with
            heap := (n.heap.newArray (["a", "", "b", ""].map fun l => .boxed (.string l)).toArray).2
            control := .give (.boxed (.array n.heap.arrays.size)) } := by
  intro m
  have boxed : ∀ v ∈ m.heap.parts (.array 0), v.isBoxed ∧ ∀ c : Container, ¬ v.Is c.datum := by
    have item (s : String) (c : Container) : ¬ (Value.boxed (.string s)).Is c.datum := by
      cases c <;> rintro ⟨⟩
    simp [m, Heap.parts, Heap.array, Value.isBoxed, item]
  have owned : m.heap.Owns (.array 0) := by
    intro d reach
    rcases reach.cases_head with rfl | ⟨e, ⟨v, hv, he⟩, -⟩
    · exact fun v hv => (boxed v hv).1
    · exact absurd he ((boxed v hv).2 e)
  have writable : m.world.files.target "f" = .ok ["f"] := by cbv
  obtain ⟨texts, files, ht, written, -, back, -⟩ := written_lines_read_back m "f" 0 ["f"] owned writable
  obtain rfl : texts = ["a", "\r\nb", ""] := Except.ok.inj (ht.symm.trans rfl)
  have lines : (["a", "\r\nb", ""].flatMap fun t => Text.lines (Text.withLineFeeds (t ++ "\n"))) =
      ["a", "", "b", ""] := by decide +kernel
  rw [lines] at back
  exact ⟨owned, writable, files, written, back⟩

end Machine

end DynScript

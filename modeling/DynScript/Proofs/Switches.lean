import DynScript.Proofs.ForLoops
import Mathlib.Data.List.Pairwise

/-!
# Switches

A switch keeps the value of its subject in a hidden variable of a frame of its own and compares it with
its cases in turn.
-/

namespace DynScript

open Grammar List

/-! ### What a switch means -/

namespace Machine

/-- What a statement that gives no value comes to. -/
def concluded (z : Machine) : Machine :=
  z.alone z.control.ended

/-- What follows where an evaluation has come to `t`: `next` if it has given a value, and an error ends
all. -/
def Then (t : Machine) (next : Value → Prop) (z : Machine) : Prop :=
  match t.control with
  | .give v => next v
  | _ => z = t

/-- A statement, if there is one, is executed in the frame `f`. -/
def Runs (rules : Rules) (f : Ref) : Option Stmt → Machine → Machine → Prop
  | none, m, z => z = m.alone (.give .nothing)
  | some s, m, z => ∃ n, (m.alone (.exec s f)).ComesTo rules n ∧ z = n.concluded

/-- The tests of the cases are evaluated in the frame `f` up to the first that equals `v`, and its
body is executed, or `otherwise`. -/
def Picks (rules : Rules) (f : Ref) (v : Value) (otherwise : Option Stmt) :
    List (Expr × Stmt) → Machine → Machine → Prop
  | [], m, z => m.Runs rules f otherwise z
  | x :: rest, m, z => ∃ t, (m.alone (.eval x.1 f)).ComesTo rules t ∧ t.Then (fun w =>
      match v.equal w with
      | .error e => z = t.raise e x.1.place
      | .ok true => t.Runs rules f (some x.2) z
      | .ok false => Picks rules f v otherwise rest t z) z

/-- A switch evaluates its subject once, in a new frame, and then picks a case. -/
def Switches (rules : Rules) (w : Switch) (frame : Ref) (m z : Machine) : Prop :=
  ∃ t, ((m.newFrame (.fresh frame [w.slot])).2.alone
    (.eval w.subject.boxed m.frames.size)).ComesTo rules t ∧ t.Then (fun v =>
      (t.store ⟨m.frames.size, w.slot.id⟩ v).Picks rules m.frames.size v w.otherwise w.cases z) z

variable {rules : Rules} {m t z : Machine} {f : Ref} {v w : Value} {K : List Pending}
  {l : List (Expr × Stmt)} {o : Option Stmt}

/-! ### Pending comparisons -/

lemma exists_eq_alone (h : t.outcome?.isSome) :
    ∃ (n : Machine) (c : Control), t = n.alone c ∧ ((∃ v, c = .give v) ∨ c.Passing) :=
  let ⟨c, rest, shape⟩ := exists_alone h
  ⟨t, c, rest, shape⟩

lemma comesTo_then {N : Machine → Value → Prop} (hK : ∀ p ∈ K, p.Clear)
    (given : ∀ (n : Machine) v, m.ComesTo rules (n.alone (.give v)) →
      (((n.alone (.give v)).above K).ComesTo rules z ↔ N (n.alone (.give v)) v)) :
    (m.above K).ComesTo rules z ↔ ∃ t, m.ComesTo rules t ∧ t.Then (N t) z := by
  rw [comesTo_above]
  refine exists_congr fun t => and_congr_right fun worked => ?_
  obtain ⟨n, c, rfl, ⟨v, rfl⟩ | passing⟩ := exists_eq_alone worked.atRest
  · exact given n v worked
  · rw [(leads_passing rules n passing hK).comesTo, comesTo_self worked.atRest]
    cases c <;> first | rfl | cases passing

lemma comesTo_discard :
    (m.above [.discard]).ComesTo rules z ↔ ∃ n, m.ComesTo rules n ∧ z = n.concluded := by
  have clear : Pending.discard.Clear := ⟨fun _ _ _ => rfl, fun _ _ => rfl⟩
  refine (comesTo_then (N := fun n _ => z = n.concluded) (forall_mem_singleton.2 clear)
    fun n v _ => ?_).trans (exists_congr fun n => and_congr_right fun worked => ?_)
  · have ends : ((n.alone (.give v)).above [.discard]).Leads rules (n.alone (.give .nothing)) :=
      .step (.refl _)
    exact ends.comesTo.trans (comesTo_self rfl)
  · obtain ⟨n, c, rfl, ⟨v, rfl⟩ | passing⟩ := exists_eq_alone worked.atRest
    · rfl
    · cases c <;> rfl

lemma Runs.concluded (h : m.Runs rules f o z) : z.concluded = z := by
  cases o with
  | none =>
    rw [show z = m.alone (.give .nothing) from h]
    rfl
  | some s =>
    obtain ⟨n, -, rfl⟩ := h
    unfold Machine.concluded
    cases n.control <;> rfl

lemma Picks.concluded (h : m.Picks rules f v o l z) : z.concluded = z := by
  induction l generalizing m with
  | nil => exact Runs.concluded h
  | cons x l ih =>
    obtain ⟨t, tested, h⟩ := h
    obtain ⟨n, c, rfl, ⟨w, rfl⟩ | passing⟩ := exists_eq_alone tested.atRest
    · simp only [Then, alone] at h
      split at h
      · rw [h]
        rfl
      · exact Runs.concluded h
      · exact ih h
    · obtain rfl : z = n.alone c := by cases c <;> first | exact h | cases passing
      cases c <;> first | rfl | cases passing

end Machine

lemma Node.exists_bound (x : Node) : ∃ V, x.Bound V := by
  induction x using Node.induct with
  | h x ih =>
    have all : ∀ l : List Node, (∀ y ∈ l, ∃ V, y.Bound V) → ∃ V, ∀ y ∈ l, y.Bound V := by
      intro l hl
      induction l with
      | nil => exact ⟨[], forall_mem_nil _⟩
      | cons y l ih =>
        obtain ⟨⟨V, hy⟩, hl⟩ := forall_mem_cons.1 hl
        obtain ⟨W, hW⟩ := ih hl
        exact ⟨V ++ W, forall_mem_cons.2 ⟨hy.mono (subset_append_left V W),
          fun z hz => (hW z hz).mono (subset_append_right V W)⟩⟩
    obtain ⟨V, hV⟩ := all x.children ih
    refine ⟨x.slot?.toList ++ V, Node.bound_iff.2 ⟨fun s hs => ?_, fun y hy => ?_⟩⟩
    · exact mem_append_left _ (Option.mem_toList.2 hs)
    · exact (hV y hy).mono fun s hs => mem_append_right _ (mem_append_right _ hs)

namespace Machine

/-! ### The hidden variable -/

/-- The variable with the number `id` in the frame `f` holds `v`, and no code finds it. -/
abbrev Hides (x : Ref → List Slot) (f : Ref) (id : Nat) (v : Value) (m : Machine) : Prop :=
  DynScript.Sound ⟨⟨False, False⟩, some (⟨f, id⟩, v)⟩ x m.frames m.heap m.interpreters []

variable {rules : Rules} {m t z : Machine} {f : Ref} {v w : Value} {x : Ref → List Slot} {id : Nat}

namespace Hides

lemma get (h : m.Hides x f id v) : (frameAt m.frames f).get? id = some v :=
  h.holds _ rfl

/-- Code at the frame of the hidden variable that has no name for it. -/
lemma fits (h : m.Hides x f id v) {α : Type} [Code α] {V} (hV : ∀ s ∈ V, s.id ≠ id) {a : α}
    (ha : Code.Bound V a) {T : Nat → Prop} :
    DynScript.Fits ⟨⟨False, False⟩, some (⟨f, id⟩, v)⟩ m.frames f T a where
  lt_size := h.holds.lt_size rfl
  bound _ := ⟨V, ha, False.elim, fun p hp =>
    ⟨h.holds.lt_size hp, fun s hs e => absurd e (by cases hp; exact hV s hs)⟩⟩
  lands := False.elim

/-- **Such code leaves the variable hidden.** -/
theorem comesTo (hh : rules.host.Tame) (h : m.Hides x f id v) {c : Control}
    (hc : c.Fits ⟨⟨False, False⟩, some (⟨f, id⟩, v)⟩ m.frames []) (hz : (m.alone c).ComesTo rules z) :
    z.Hides x f id v := by
  have start : (m.alone c).Fits ⟨⟨False, False⟩, some (⟨f, id⟩, v)⟩ x := ⟨h, hc⟩
  have ends := (hz.leads.keeps (P := Fits _ x) (fun _ => fits_step hh) start).sound
  obtain ⟨k, rest, -⟩ := exists_alone hz.atRest
  rw [rest] at ends
  exact ends

lemma cell? {slot : Slot} (h : m.Hides x f slot.id v) : m.cell? slot f = some ⟨f, slot.id⟩ := by
  rw [Machine.cell?, Seen.cellWithin_succ, h.get]
  rfl

lemma store (h : m.Hides x f id w) (v) : (m.store ⟨f, id⟩ v).Hides x f id v := by
  have grows := Grows.set m.frames f id v
  have size : (m.frames.modify f fun y => y.set id v).size = m.frames.size := Array.size_modify
  refine ⟨h.rooted.of_grows grows size, size ▸ h.nonempty, fun c hc => ?_, fun i => (h.globals i).grows grows,
    h.unknown, ?_, trivial⟩
  · obtain ⟨lt, bound, lands⟩ := (h.heap c hc).grows grows
    refine ⟨lt, fun _ => ?_, lands⟩
    obtain ⟨V, hb, -, misses⟩ := bound (.inr rfl)
    exact ⟨V, hb, False.elim, fun p hp => by cases hp; exact misses (⟨f, id⟩, w) rfl⟩
  · rintro p hp
    cases hp
    change (frameAt (m.frames.modify f _) f).get? id = some v
    rw [Grows.frameAt_modify _ _ _ _ (h.holds.lt_size rfl), if_pos rfl, Frame.get?_set, if_pos rfl, h.get]
    rfl

end Hides

/-! ### Cases -/

variable {slot : Slot} {l : List (Expr × Stmt)} {o : Option Stmt}

/-- What is left to do behind a comparison. -/
def after (m : Machine) (f : Ref) (o : Option Stmt) : Machine :=
  match o with
  | some s => (m.alone (.exec s f)).above [.discard]
  | none => m.alone (.give .nothing)

/-- The comparison of the hidden variable with a test. -/
lemma leads_comparison (h : m.Hides x f slot.id v) (test body o p q) :
    (m.alone (.exec (.branch (.binary .equal (.read slot p) test p) body o q) f)).Leads rules
      ((m.alone (.eval test f)).above [.binaryRight .equal v p, .branch body o f]) := by
  let a := (m.alone (.eval (.read slot p) f)).above [.binaryLeft .equal test f p, .branch body o f]
  have found : a.cell? slot f = some ⟨f, slot.id⟩ := h.cell?
  refine .step (.step (.step ?_))
  change (a.withCell slot f p fun c => a.give (m.load c)).Leads rules _
  rw [withCell, found, show v = m.load ⟨f, slot.id⟩ from (congrArg (·.getD .null) h.get).symm]
  exact .step (.refl _)

lemma binary_equal (h : Heap) (v w) : h.binary .equal v w =
    (v.equal w).map fun b => .wrap (v.isBoxed || w.isBoxed) (.bool b) := by
  unfold Heap.binary Heap.binaryDatum
  cases v.equal w <;> rfl

lemma isTrue_wrap_bool (d b : Bool) : (Value.wrap d (.bool b)).isTrue = b := by
  cases d <;> cases b <;> rfl

section

variable (t : Machine) (f : Ref) (body : Stmt) (o : Option Stmt) (p : Location)

lemma leads_equal : ((t.alone (.give w)).above [.binaryRight .equal v p, .branch body o f]).Leads rules
    (((t.alone (.give w)).above [.branch body o f]).look (fun h => h.binary .equal v w) p) :=
  .step (.refl _)

lemma leads_differing {e} (he : v.equal w = .error e) :
    ((t.alone (.give w)).above [.binaryRight .equal v p, .branch body o f]).Leads rules
      ((t.alone (.give w)).raise e p) := by
  refine (leads_equal t f body o p).trans ?_
  rw [look, binary_equal, he]
  exact .step (.refl _)

lemma leads_compared {b : Bool} (he : v.equal w = .ok b) :
    ((t.alone (.give w)).above [.binaryRight .equal v p, .branch body o f]).Leads rules
      (t.after f (if b then some body else o)) := by
  have next (u : Value) : (((t.alone (.give w)).above [.branch body o f]).give u).step rules =
      t.after f (if u.isTrue then some body else o) := by
    simp only [step, give, go, above, amid, alone, nil_append, resume]
    cases u.isTrue <;> cases o <;> rfl
  refine (leads_equal t f body o p).trans (.step ?_)
  rw [look, binary_equal, he]
  change ((((t.alone (.give w)).above [.branch body o f]).give _).step rules).Leads rules _
  rw [next, isTrue_wrap_bool]
  exact .refl _

end

lemma comesTo_after : (m.after f o).ComesTo rules z ↔ m.Runs rules f o z := by
  cases o with
  | none => exact comesTo_self rfl
  | some s => exact comesTo_discard

variable {V : List Slot} (hV : ∀ s ∈ V, s.id ≠ slot.id) (hh : rules.host.Tame)
include hV hh

/-- A case is compared, and executed or passed by. -/
lemma comesTo_case (h : m.Hides x f slot.id v) {y} (hy : y.1.Bound V) {c}
    (ih : ∀ t : Machine, t.Hides x f slot.id v → ((t.after f c).ComesTo rules z ↔ t.Picks rules f v o l z)) :
    (m.alone (.exec (.branch (.binary .equal (.read slot y.1.place) y.1 y.1.place) y.2 c y.1.place)
      f)).ComesTo rules z ↔ m.Picks rules f v o (y :: l) z := by
  rw [(leads_comparison h y.1 y.2 c y.1.place y.1.place).comesTo]
  refine comesTo_then (forall_mem_pair ⟨fun _ _ _ => rfl, fun _ _ => rfl⟩
    ⟨fun _ _ _ => rfl, fun _ _ => rfl⟩) fun t w tested => ?_
  cases he : v.equal w with
  | error e => rw [(leads_differing t f y.2 c y.1.place he).comesTo, comesTo_self rfl]
  | ok b =>
    rw [(leads_compared t f y.2 c y.1.place he).comesTo]
    cases b with
    | true => exact comesTo_discard
    | false => exact ih _ (h.comesTo hh (c := .eval y.1 f) (h.fits hV hy) tested)

lemma comesTo_chain (h : m.Hides x f slot.id v) (hl : ∀ y ∈ l, y.1.Bound V) :
    (m.after f (switchChain slot l o)).ComesTo rules z ↔ m.Picks rules f v o l z := by
  induction l generalizing m z with
  | nil => exact comesTo_after
  | cons y l ih =>
    obtain ⟨first, others⟩ := forall_mem_cons.1 hl
    have case (n : Machine) := comesTo_case (z := n) hV hh h first fun t ht => ih ht others
    refine comesTo_discard.trans ⟨?_, fun picks => ⟨z, (case z).2 picks, picks.concluded.symm⟩⟩
    rintro ⟨n, ends, rfl⟩
    have picks := (case n).1 ends
    rwa [picks.concluded]

omit hV hh

/-! ### The whole switch -/

lemma leads_declare (rules) (h : (t.alone (.give v)).Hides x f slot.id w) (p) :
    ((t.alone (.give v)).above [.declare slot f p]).Leads rules
      ((t.store ⟨f, slot.id⟩ v).alone (.give .nothing)) := by
  have found : (t.alone (.give v)).cell? slot f = some ⟨f, slot.id⟩ := h.cell?
  have stored : ((t.alone (.give v)).above [.declare slot f p]).step rules =
      (t.alone (.give v)).withCell slot f p fun c => ((t.alone (.give v)).store c v).give .nothing := rfl
  refine .step ?_
  rw [stored, withCell, found]
  exact .refl _

/-- **No code knows the variable of a new frame.** -/
theorem hides_newFrame (slot) {frame} (lt : frame < m.frames.size)
    (sound : DynScript.Sound ⟨⟨False, False⟩, none⟩ x m.frames m.heap m.interpreters []) :
    (m.newFrame (.fresh frame [slot])).2.Hides x m.frames.size slot.id .null := by
  have pushed := sound.push (f := .fresh frame [slot]) fun r hr => by
    rw [Frame.fresh, Frame.parent_extend] at hr
    cases hr
    exact lt
  refine ⟨pushed.rooted, pushed.nonempty, fun c hc => ?_, pushed.globals, pushed.unknown, ?_, trivial⟩
  · obtain ⟨V, bound⟩ := (Node.expr c.code.expr).exists_bound
    have inside := (pushed.heap c hc).lt_size
    refine ⟨inside, fun _ => ⟨V, bound, False.elim, fun p hp => ?_⟩, False.elim⟩
    cases hp
    exact ⟨by simp [newFrame], fun _ _ _ => .of_lt pushed.rooted (sound.heap c hc).lt_size inside⟩
  · rintro p ⟨⟩
    change (frameAt (m.frames.push _) m.frames.size).get? slot.id = some .null
    rw [Grows.frameAt_push, if_pos rfl, Frame.fresh, Frame.get?_extend]
    simp [Frame.get?]

/-- **A switch does what it means.** -/
theorem comesTo_switch (hh : rules.host.Tame) {y : Switch} (hV : ∀ s ∈ V, s.id ≠ y.slot.id)
    (ne : y.cases ≠ []) (hs : y.subject.Bound V) (hl : ∀ c ∈ y.cases, c.1.Bound V) {frame}
    (lt : frame < m.frames.size)
    (sound : DynScript.Sound ⟨⟨False, False⟩, none⟩ x m.frames m.heap m.interpreters []) :
    (m.alone (.exec y.stmt frame)).ComesTo rules z ↔ m.Switches rules y frame z := by
  obtain ⟨slot, subject, cases, otherwise, place⟩ := y
  dsimp only at hV ne hs hl
  have hides := hides_newFrame slot lt sound
  obtain ⟨c, l, rfl⟩ := exists_cons_of_ne_nil ne
  obtain ⟨first, others⟩ := forall_mem_cons.1 hl
  have evaluates : ((m.newFrame (.fresh frame [slot])).2.alone
      (.exec (.declare slot subject.boxed place) m.frames.size)).Leads rules
        (((m.newFrame (.fresh frame [slot])).2.alone (.eval subject.boxed m.frames.size)).above
          [.declare slot m.frames.size place]) := .step (.refl _)
  have still {t : Machine} (ht : ((m.newFrame (.fresh frame [slot])).2.alone
      (.eval subject.boxed m.frames.size)).ComesTo rules t) : t.Hides x m.frames.size slot.id .null :=
    hides.comesTo hh (c := .eval subject.boxed m.frames.size) (hides.fits hV (Expr.bound_boxed.2 hs)) ht
  have declared (i : Machine) := evaluates.comesTo.trans (comesTo_then (z := i)
    (N := fun t v => i = (t.store ⟨m.frames.size, slot.id⟩ v).alone (.give .nothing))
    (forall_mem_singleton.2 ⟨fun _ _ _ => rfl, fun _ _ => rfl⟩)
    fun t v ht => (leads_declare rules (still ht) place).comesTo.trans (comesTo_self rfl))
  have case {i : Machine} {v : Value} (hi : i.Hides x m.frames.size slot.id v) :=
    comesTo_case (z := z) (o := otherwise) hV hh hi first fun t ht => comesTo_chain hV hh ht others
  refine (comesTo_pair fun _ => rfl).trans ⟨?_, ?_⟩
  · rintro ⟨i, ends, goes⟩
    obtain ⟨t, evaluated, ends⟩ := (declared i).1 ends
    refine ⟨t, evaluated, ?_⟩
    have hides := still evaluated
    obtain ⟨n, c, rfl, ⟨v, rfl⟩ | passing⟩ := exists_eq_alone evaluated.atRest
    · obtain rfl : i = _ := ends
      exact (case (hides.store v)).1 goes
    · obtain rfl : i = n.alone c := by cases c <;> first | exact ends | cases passing
      cases c <;> first | exact goes | cases passing
  · rintro ⟨t, evaluated, picked⟩
    have hides := still evaluated
    obtain ⟨n, c, rfl, ⟨v, rfl⟩ | passing⟩ := exists_eq_alone evaluated.atRest
    · exact ⟨_, (declared _).2 ⟨_, evaluated, rfl⟩, (case (hides.store v)).2 picked⟩
    · refine ⟨n.alone c, (declared _).2 ⟨_, evaluated, ?_⟩, ?_⟩
      · cases c <;> first | rfl | cases passing
      · cases c <;> first | exact picked | cases passing

end Machine

/-! ### The hidden slot -/

namespace Node

variable {x y : Node} {V : List Slot} {s : Slot}

lemma binders_of_has (h : x.Has y) : y.binders ⊆ x.binders := by
  induction h using Relation.ReflTransGen.head_induction_on with
  | refl => exact fun _ => id
  | head hz _ ih => exact fun s hs => mem_binders.2 (.inr ⟨_, hz, ih hs⟩)

/-- **The variables in a node are bound around it or in it.** -/
theorem Bound.mem (h : x.Bound V) (hy : x.Has y) (hs : s ∈ y.slot?) : s ∈ V ∨ s ∈ x.binders := by
  induction hy using Relation.ReflTransGen.head_induction_on generalizing V with
  | refl => exact .inl ((bound_iff.1 h).1 s hs)
  | head hz _ ih =>
    rcases ih ((bound_iff.1 h).2 _ hz) with hs | hs
    · rcases mem_append.1 hs with hs | hs
      · exact .inr (mem_binders.2 (.inl hs))
      · exact .inl hs
    · exact .inr (mem_binders.2 (.inr ⟨_, hz, hs⟩))

/-- **A variable is used in its binder only**, where each is bound once. -/
theorem has_of_bound {b} {i : Nat} (hb : x.Has b) (hi : i ∈ b.bound.map (·.id)) (h : x.Bound V)
    (hV : i ∉ V.map (·.id)) (nodup : (x.binders.map (·.id)).Nodup) (hy : x.Has y) (hs : s ∈ y.slot?)
    (he : s.id = i) : b.Has y := by
  induction hb using Relation.ReflTransGen.head_induction_on generalizing V with
  | refl => exact hy
  | @head x z hz hb ih =>
    have bound : i ∈ z.binders.map (·.id) := by
      obtain ⟨t, ht, rfl⟩ := mem_map.1 hi
      exact mem_map_of_mem (binders_of_has hb (mem_binders.2 (.inl ht)))
    have parts := (x.binders_perm.map (·.id)).nodup nodup
    rw [map_append, map_flatMap, nodup_append, nodup_flatMap] at parts
    obtain ⟨-, ⟨each, apart⟩, away⟩ := parts
    have outside : i ∉ (x.bound ++ V).map (·.id) := by
      rw [map_append, mem_append]
      rintro (inner | outer)
      · exact away i inner i (mem_flatMap.2 ⟨z, hz, bound⟩) rfl
      · exact hV outer
    obtain ⟨own, inside⟩ := bound_iff.1 h
    rcases Relation.ReflTransGen.cases_head hy with rfl | ⟨z', hz', hy⟩
    · exact absurd (he ▸ mem_map_of_mem (own s hs)) hV
    · by_cases same : z' = z
      · exact ih (inside z hz) outside (each z hz) (same ▸ hy)
      · -- Another part binds other variables.
        rcases (inside z' hz').mem hy hs with hs | hs
        · exact absurd (he ▸ mem_map_of_mem hs) outside
        · have : Std.Symm (Function.onFun List.Disjoint fun a : Node => a.binders.map (·.id)) :=
            ⟨fun _ _ h _ ha hb => h hb ha⟩
          exact (apart.forall hz' hz same (he ▸ mem_map_of_mem hs) bound).elim

end Node

/-- The numbers of the variables in sight have been handed out. -/
def ScopeTable.Numbered (t : ScopeTable) : Prop :=
  ∀ s ∈ t.visible, s.id < t.nextSlot

lemma ScopeTable.Numbered.onward {t u : ScopeTable} (h : t.Numbered) (hu : t.Onward u) : u.Numbered := by
  obtain ⟨new, hn, -, range⟩ := hu.slots
  intro s hs
  rw [visible_eq, hu.around, hu.linked, hn, append_assoc, mem_append] at hs
  rcases hs with hs | hs
  · exact lt_of_lt_of_le (h s (visible_eq t ▸ mem_append_left _ hs)) hu.nextSlot
  · rcases mem_append.1 hs with hs | hs
    · exact (range _ (mem_map_of_mem hs)).2
    · exact lt_of_lt_of_le (h s (visible_eq t ▸ mem_append_right _ hs)) hu.nextSlot

namespace Grammar

/-- The parts of a switch as they are written. -/
def Switch.parts (w : Switch) : List Node :=
  .expr w.subject :: (w.cases.flatMap fun c => [.expr c.1, .stmt c.2]) ++ w.otherwise.toList.map .stmt

variable {w : Switch} {s u : ParseState}

/-- **The hidden slot is not one of the variables in sight**, and the parts bind others. -/
theorem Switch.hidden (hs : s.scopes.Numbered)
    (h : Quiet 0 0 s (((w.subject, w.slot), w.cases), w.otherwise) u) :
    (∀ slot ∈ s.scopes.visible, slot.id ≠ w.slot.id) ∧
      ∀ p ∈ w.parts, p.Bound s.scopes.visible ∧ ∀ slot ∈ p.binders, slot.id ≠ w.slot.id := by
  have visible : u.scopes.visible = s.scopes.visible := by
    rw [ScopeTable.visible_eq, ScopeTable.visible_eq, h.current, h.onward.scopes.around,
      h.onward.scopes.linked]
  obtain ⟨new, -, nodup, range⟩ := h.fresh
  obtain ⟨⟨⟨subject, -⟩, cases⟩, otherwise⟩ := visible ▸ h.bound
  have low : s.scopes.nextSlot ≤ w.slot.id := (range _ (by simp [Code.binders])).1
  have once : ((new ++ w.subject.binders).map (·.id) ++ w.slot.id ::
      (Code.binders w.cases ++ Code.binders w.otherwise).map (·.id)).Nodup := by
    simpa [Code.binders] using nodup
  rw [nodup_middle, nodup_cons, ← map_append] at once
  have others : ∀ slot ∈ w.subject.binders ++ (Code.binders w.cases ++ Code.binders w.otherwise),
      slot.id ≠ w.slot.id := fun slot hm e => once.1 (e ▸ mem_map_of_mem (by simp_all))
  rw [forall_mem_append, forall_mem_append] at others
  refine ⟨fun slot hm => ne_of_lt (lt_of_lt_of_le (hs slot hm) low), fun p hp => ?_⟩
  rcases mem_append.1 hp with hp | hp
  · rcases mem_cons.1 hp with rfl | hp
    · exact ⟨subject, others.1⟩
    · obtain ⟨c, hc, hp⟩ := mem_flatMap.1 hp
      have inner : ∀ slot ∈ c.1.binders ++ c.2.binders, slot.id ≠ w.slot.id := fun slot hm =>
        others.2.1 slot (mem_flatMap.2 ⟨c, hc, hm⟩)
      rw [forall_mem_append] at inner
      rcases mem_pair.1 hp with rfl | rfl
      · exact ⟨(cases c hc).1, inner.1⟩
      · exact ⟨(cases c hc).2, inner.2⟩
  · obtain ⟨a, ha, rfl⟩ := mem_map.1 hp
    exact ⟨otherwise a (Option.mem_toList.1 ha), fun slot hm =>
      others.2.2 slot (mem_flatMap.2 ⟨a, ha, hm⟩)⟩

/-- **A switch executes the first case that matches.**  A switch that the parser reads is made of its
parts in the order in which they are read, with at least one case, and a hidden slot.  No node in the
parts reads, assigns or declares a variable with the number of that slot, and no node of a program
with this switch does outside of it.  Wherever a machine executes the switch, it evaluates the subject
once, then the tests in turn up to the first that equals its value, and executes the body of that case
only, or what there is otherwise. -/
theorem switch_first_match {c : ParseContext} (hc : c.eof.kind = .endOfInput) {n : Nat} {keyword : Token}
    {a : Stmt} (hs : s.scopes.Numbered)
    (h : ((unrolled n).switchStatement keyword).run c s = .ok a u) :
    u.scopes.Numbered ∧ ∃ w : Switch, a = w.stmt ∧ w.place = keyword.location ∧
      (unrolled n).ReadsSwitch c s w u ∧ w.cases ≠ [] ∧
      (∀ p ∈ w.parts, ∀ y, p.Has y → ∀ slot ∈ y.slot?, slot.id ≠ w.slot.id) ∧
      (∀ source options natives linked supply v,
        (compile source options natives linked supply).result = .ok v →
        (∀ slot ∈ linked, slot.id < supply.slot) → (Node.stmt (.block v.program.body)).Has (.stmt a) →
        ∀ y, (Node.stmt (.block v.program.body)).Has y → ∀ slot ∈ y.slot?, slot.id = w.slot.id →
          (Node.stmt a).Has y) ∧
      ∀ (rules : Rules) (m : Machine) x frame, rules.host.Tame → Machine.Arises rules ⟨False, False⟩ m x →
        m.control = .exec a frame →
        ∀ z, (m.alone m.control).ComesTo rules z ↔ m.Switches rules w frame z := by
  obtain ⟨w, rfl, place, reads, ne, quiet⟩ := exists_switch (sound_unrolled hc n) keyword s a u h
  obtain ⟨fresh, parts⟩ := Switch.hidden hs quiet
  refine ⟨hs.onward quiet.onward.scopes, w, rfl, place, reads, ne, fun p hp y hy slot hm => ?_, ?_, ?_⟩
  · rcases (parts p hp).1.mem hy hm with hm | hm
    · exact fresh slot hm
    · exact (parts p hp).2 slot hm
  · intro source options natives linked supply v hv hl has y hy slot hm e
    have sc := scoped_of_compile hv
    have binders : (Node.stmt (.block v.program.body)).binders = v.program.body.binders := by
      simp only [Node.binders, Stmt.binders]
    have own : w.slot.id ∈ v.program.body.binders.map (·.id) := by
      rw [← binders]
      exact mem_map_of_mem (Node.binders_of_has has (Node.mem_binders.2 (.inl mem_cons_self)))
    refine Node.has_of_bound has (i := w.slot.id) mem_cons_self (V := linked) ?_ ?_ ?_ hy hm e
    · simpa only [Node.Bound, Stmt.Bound] using sc.bound
    · rintro linked
      obtain ⟨slot, hs, e⟩ := mem_map.1 linked
      exact absurd (hl slot hs) (not_lt.2 (e ▸ (sc.fresh.2 _ own).1))
    · rw [binders]
      exact sc.fresh.1
  · intro rules m x frame tame arises control z
    have fits := Machine.fits_of_arises tame arises
    have lt := fits.control
    rw [control] at lt ⊢
    refine Machine.comesTo_switch tame fresh ne (parts (.expr w.subject) mem_cons_self).1
      (fun y hy => ?_) lt.lt_size { fits.sound with stack := trivial }
    exact (parts (.expr y.1) (mem_append_left _ (mem_cons_of_mem _
      (mem_flatMap.2 ⟨y, hy, mem_cons_self⟩)))).1

/-- A unit with nothing but a switch is about to execute it. -/
theorem switch_first_match_pair : ∃ (v : CompiledUnit) (w : Switch) (frame : Ref),
    (compile "switch (true) { case false: print 1; case true: print 2; }" {} .standard [] {}).result =
      .ok v ∧ w.cases ≠ [] ∧
    (∀ p ∈ w.parts, ∀ y, p.Has y → ∀ slot ∈ y.slot?, slot.id ≠ w.slot.id) ∧
    let m := (Machine.initial .standard {} {} defaultLimit true).atRest.startRun 0 v.program
    m.control = .exec w.stmt frame ∧ ∀ z, (m.alone m.control).ComesTo {} z ↔ m.Switches {} w frame z := by
  let tokens := (scan "switch (true) { case false: print 1; case true: print 2; }" "<script>").tokens
  let c : ParseContext := { eof := tokens.getLastD default, natives := .standard, bound := 17 }
  let s : ParseState := { last := tokens.headD c.eof, rest := tokens.dropLast.tail, scopes := {} }
  let m := Machine.initial .standard {} {} defaultLimit true
  obtain ⟨v, a, u, hv, h, control⟩ : ∃ v a u, (compile
      "switch (true) { case false: print 1; case true: print 2; }" {} .standard [] {}).result = .ok v ∧
      ((unrolled 2).switchStatement s.last).run c s = .ok a u ∧
      (m.atRest.startRun 0 v.program).control = .exec a 0 := by
    refine ⟨_, _, _, rfl, rfl, ?_⟩
    rfl
  have arises : Machine.Arises {} ⟨False, False⟩ (m.atRest.startRun 0 v.program) _ :=
    .run (.initial ..) hv 0 Nat.one_pos False.elim False.elim
  have numbered : s.scopes.Numbered := forall_mem_nil _
  obtain ⟨-, w, rfl, -, -, ne, hidden, -, runs⟩ := switch_first_match (c := c) rfl numbered h
  exact ⟨v, w, 0, hv, ne, hidden, control, runs {} _ _ 0 Host.tame_none arises control⟩

end Grammar

end DynScript

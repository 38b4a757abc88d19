import DynScript.Proofs.Settling
import DynScript.Proofs.WrittenCode

/-!
# Data that is read back

Code that was written for data builds it: an array is made of its items when all of them are there, a
record is made first and gets its fields one by one.

Main declarations: `Machine.makes_of_builds`.
-/

namespace DynScript

open List

/-! ### New containers -/

/-- The heap `k` has come out of `h` and no container of `h` has changed. -/
structure Heap.Grown (h k : Heap) : Prop where
  has : ∀ c, h.Has c → k.Has c
  array : ∀ r, h.Has (.array r) → k.array r = h.array r
  record : ∀ r, h.Has (.record r) → k.record r = h.record r

/-- A container that one heap has and the other has not. -/
structure Heap.New (h k : Heap) (c : Container) : Prop where
  absent : ¬ h.Has c
  present : k.Has c

namespace Heap

variable {h k l : Heap} {v : Value} {t : Tree}

lemma Grown.refl (h : Heap) : h.Grown h :=
  ⟨fun _ => id, fun _ _ => rfl, fun _ _ => rfl⟩

lemma Grown.trans (hk : h.Grown k) (kl : k.Grown l) : h.Grown l where
  has c hc := kl.has c (hk.has c hc)
  array r hr := (kl.array r (hk.has _ hr)).trans (hk.array r hr)
  record r hr := (kl.record r (hk.has _ hr)).trans (hk.record r hr)

lemma grown_newArray (h : Heap) (items) : h.Grown (h.newArray items).2 where
  has c hc := by
    cases c with
    | array r => exact (Nat.lt_succ_of_lt hc).trans_eq (Array.size_push _).symm
    | record r => exact hc
  array r hr := by rw [array_newArray, if_neg (ne_of_lt hr)]
  record _ _ := rfl

lemma grown_newRecord (h : Heap) (x) : h.Grown (h.newRecord x).2 where
  has c hc := by
    cases c with
    | array r => exact hc
    | record r => exact (Nat.lt_succ_of_lt hc).trans_eq (Array.size_push _).symm
  array _ _ := rfl
  record r hr := by rw [record_newRecord, if_neg (ne_of_lt hr)]

lemma RepresentsIn.grow (H : k.RepresentsIn (h.New k) v t) (kl : k.Grown l) :
    l.RepresentsIn (h.New l) v t :=
  H.transfer (fun c hc => ⟨hc.absent, kl.has c hc.present⟩) (fun r hr => kl.array r hr.present)
    fun r hr => kl.record r hr.present

lemma RepresentsIn.older (H : l.RepresentsIn (k.New l) v t) (hk : h.Grown k) :
    l.RepresentsIn (h.New l) v t :=
  H.transfer (fun c hc => ⟨fun old => hc.absent (hk.has c old), hc.present⟩) (fun _ _ => rfl)
    fun _ _ => rfl

variable {r : Ref}

lemma has_setField {name w c} : (h.setField r name w).Has c ↔ h.Has c := by
  cases c with
  | array s => exact Iff.rfl
  | record s =>
    show s < (h.records.modify r _).size ↔ s < h.records.size
    rw [Array.size_modify]

lemma RepresentsIn.setField {S : Container → Prop} (H : h.RepresentsIn S v t)
    (hs : ∀ c, S c → c ≠ .record r) (hr : h.Has (.record r)) (name w) :
    (h.setField r name w).RepresentsIn S v t := by
  refine H.transfer (fun _ => id) (fun _ _ => rfl) fun s hS => ?_
  have other : s ≠ r := fun same => hs _ hS (congrArg Container.record same)
  rw [record_setField h r name w hr, if_neg other]

lemma record_setField_new {name} (hr : h.Has (.record r))
    (hn : .name name ∉ (h.record r).fields.map (·.1)) (w) : (h.setField r name w).record r =
      ⟨(h.record r).fields ++ [(.name name, w)]⟩ := by
  have absent : (h.record r).get? name = none := by
    refine lookup_eq_none_iff.2 fun f hf => ?_
    have : .name name ≠ f.1 := fun same => hn (same ▸ mem_map_of_mem hf)
    simpa using this
  rw [record_setField h r name w hr, if_pos rfl, Record.put, absent]
  rfl

lemma Grown.setField (hk : h.Grown k) (hr : h.New k (.record r)) (name w) :
    h.Grown (k.setField r name w) where
  has c hc := has_setField.2 (hk.has c hc)
  array s hs := hk.array s hs
  record s hs := by
    have other : s ≠ r := fun same => hr.absent (same ▸ hs)
    rw [record_setField k r name w hr.present, if_neg other]
    exact hk.record s hs

end Heap

/-! ### Values that are boxed without a copy -/

/-- Boxing the value makes no copy: it is boxed already, or it is no container. -/
def Value.Settled (v : Value) : Prop :=
  v.isBoxed ∨ ∃ d : Datum, d.isScalar ∧ v.Is d

lemma Value.Settled.convert {v : Value} (hv : v.Settled) :
    ∃ w : Value, (∀ h, v.convert h = .ok w h) ∧ w.payload = v.payload ∧ w.isBoxed := by
  have convert_eq {w : Value} (e : ∀ depth, v.convertWithin depth = pure w) (h : Heap) :
      v.convert h = .ok w h := by
    change v.convertWithin (h.containers + 1) h = _
    rw [e]
    rfl
  rcases hv with boxed | ⟨d, scalar, hd⟩
  · cases v with
    | boxed d mark => exact ⟨_, convert_eq fun n => by cases n <;> rfl, rfl, rfl⟩
    | raw | alien => cases boxed
  · obtain ⟨mark, e⟩ := HeapM.convertWithin_scalar scalar hd
    exact ⟨_, convert_eq e, hd.symm, rfl⟩

namespace Machine

variable {rules : Rules} {m n m' : Machine} {e : Expr} {t : Tree} {v : Value} {frame : Ref}

/-! ### Steps -/

lemma step_eval (hm : m.control = .eval e frame) : m.step rules = m.stepEval rules e frame := by
  simp only [Machine.step, hm]

lemma step_resume {p s} (hm : m.control = .give v) (hs : m.stack = p :: s) :
    m.step rules = ({ m with stack := s } : Machine).resume rules p v := by
  simp only [Machine.step, hm, hs]

lemma Leads.finish (h : Leads rules m m') (hv : m'.outcome? = some (.ok v)) :
    ∃ fuel, ∀ more, m.finish rules (fuel + more) = (.ok v, m') := by
  induction h with
  | refl m => exact ⟨0, fun more => finish_of_outcome hv _⟩
  | @step m m' h ih =>
    obtain ⟨fuel, hf⟩ := ih hv
    cases ho : m.outcome? with
    | some o =>
      rw [step_of_outcome (by rw [ho]; rfl)] at hf
      exact ⟨fuel, hf⟩
    | none =>
      refine ⟨fuel + 1, fun more => ?_⟩
      rw [Nat.add_right_comm, finish_succ ho, hf more]

/-! ### Delivering data -/

/-- The machine `m` has come out of `b`: the same is pending, and nothing of the heap has changed. -/
structure Since (b m : Machine) : Prop where
  stack : m.stack = b.stack
  heap : b.heap.Grown m.heap
  frames : Grows b.frames m.frames

lemma Since.refl (m : Machine) : m.Since m :=
  ⟨rfl, .refl _, .refl _⟩

variable {b : Machine}

lemma Since.trans (h : b.Since m) (k : m.Since n) : b.Since n :=
  ⟨k.stack.trans h.stack, h.heap.trans k.heap, h.frames.trans k.frames⟩

/-- What is under way in `m` delivers a value for a tree in `m'`, which is new since `b`. -/
structure Delivers (rules : Rules) (b m m' : Machine) (v : Value) (t : Tree) : Prop where
  leads : Leads rules m m'
  control : m'.control = .give v
  since : b.Since m'
  settled : v.Settled
  value : m'.heap.RepresentsIn (b.heap.New m'.heap) v t

/-- Evaluating the expression delivers a new value for a tree. -/
def Makes (rules : Rules) (e : Expr) (t : Tree) : Prop :=
  ∀ (m : Machine) (frame : Ref), m.control = .eval e frame → ∃ m' v, Delivers rules m m m' v t

lemma Makes.part (h : Makes rules e t) (m : Machine) (frame p) :
    ∃ n v, Leads rules (m.eval e frame p) (n.resume rules p v) ∧ m.Since n ∧ v.Settled ∧
      n.heap.RepresentsIn (m.heap.New n.heap) v t := by
  obtain ⟨n, v, hd⟩ := h (m.eval e frame p) frame rfl
  refine ⟨{ n with stack := m.stack }, v, ?_, ⟨rfl, hd.since.heap, hd.since.frames⟩, hd.settled,
    hd.value⟩
  exact hd.leads.trans (.step (step_resume hd.control hd.since.stack ▸ .refl _))

lemma makes_literal (c place) : Makes rules (.literal c place) (.constant c) := by
  intro m frame hm
  have datum : (Value.wrap rules.alwaysBoxed c.datum).Is c.datum := by
    unfold Value.wrap
    split <;> rfl
  exact ⟨m.give (.wrap rules.alwaysBoxed c.datum), _, .step (step_eval hm ▸ .refl _), rfl,
    ⟨rfl, .refl _, .refl _⟩, .inr ⟨c.datum, c.isScalar_datum, datum⟩, .constant datum⟩

lemma makes_negated (x inner place) :
    Makes rules (.unary .negate (.literal (.number x) inner) place) (.constant (.number (-x))) := by
  intro m frame hm
  obtain ⟨n, v, leads, since, -, value⟩ :=
    (makes_literal (.number x) inner).part m frame (.unary .negate place)
  cases value with
  | constant hv =>
    have number : v.number? = some x := by
      rw [Value.number?, ← Value.datum?_payload, hv]
      rfl
    have result : n.heap.unary .negate v = .ok (.wrap v.isBoxed (.number (-x))) := by
      simp only [Heap.unary, number]
      rfl
    have negated (b : Bool) : (Value.wrap b (.number (-x))).Is (.number (-x)) := by
      cases b <;> rfl
    have start : m.step rules = m.eval (.literal (.number x) inner) frame (.unary .negate place) :=
      step_eval hm
    refine ⟨n.give (.wrap v.isBoxed (.number (-x))), _, .step ?_, rfl,
      ⟨since.stack, since.heap, since.frames⟩, .inr ⟨.number (-x), rfl, negated _⟩,
      .constant (negated _)⟩
    rw [start]
    simpa only [resume, look, result] using leads

lemma Makes.boxed (h : Makes rules e t) : Makes rules e.boxed t := by
  unfold Expr.boxed
  split
  · exact h
  · intro m frame hm
    obtain ⟨n, v, leads, since, settled, value⟩ := h.part m frame (.box e.place)
    obtain ⟨w, convert, payload, boxed⟩ := settled.convert
    have start : m.step rules = m.eval e frame (.box e.place) := step_eval hm
    have since (u : Value) : m.Since (n.give u) := ⟨since.stack, since.heap, since.frames⟩
    by_cases always : rules.alwaysBoxed
    · refine ⟨n.give v, v, .step ?_, rfl, since v, settled, value⟩
      rw [start]
      simpa only [resume, always, if_true] using leads
    · refine ⟨n.give w, w, .step ?_, rfl, since w, .inl boxed, value.congr payload⟩
      rw [start]
      simpa only [resume, always, if_false, onHeap_eq, convert, Bool.false_eq_true] using leads

/-! ### Arrays -/

/-- Evaluates the items of an array that are left, then makes the array. -/
def evalItems (m : Machine) (before : List Value) (rest : List Expr) (frame : Ref)
    (place : Location) : Machine :=
  match rest with
  | [] => m.giveArray before.reverse.toArray
  | e :: rest => m.eval e frame (.arrayItem before rest frame place)

lemma exists_delivers_items {rest todo done} {before : List Value} (frame place)
    (hr : Forall₂ (Makes rules) rest todo) (hm : b.Since m)
    (hb : Forall₂ (m.heap.RepresentsIn (b.heap.New m.heap)) before.reverse done) :
    ∃ m' v, Delivers rules b (m.evalItems before rest frame place) m' v (.array (done ++ todo)) := by
  induction hr generalizing m done before with
  | nil =>
    have new : ¬ b.heap.Has (.array m.heap.arrays.size) := fun old =>
      lt_irrefl _ (hm.heap.has _ old)
    have grown := m.heap.grown_newArray before.reverse.toArray
    refine ⟨_, .boxed (.array m.heap.arrays.size), .refl _, rfl,
      hm.trans ⟨rfl, grown, .refl _⟩, .inl rfl, .array rfl ⟨new, ?_⟩ ?_⟩
    · exact (Nat.lt_succ_self _).trans_eq (Array.size_push _).symm
    · change Forall₂ _ ((m.heap.newArray before.reverse.toArray).2.array _).toList _
      rw [Heap.array_newArray, if_pos rfl, append_nil]
      exact Forall₂.imp_mem hb fun _ _ _ H => H.grow grown
  | @cons e t rest todo he _ ih =>
    obtain ⟨n, v, leads, since, settled, value⟩ :=
      he.part m frame (.arrayItem before rest frame place)
    obtain ⟨w, convert, payload, -⟩ := settled.convert
    have next : n.resume rules (.arrayItem before rest frame place) v =
        n.evalItems (w :: before) rest frame place := by
      simp only [resume, onHeap_eq, convert]
      cases rest <;> rfl
    rw [next] at leads
    have items : Forall₂ (n.heap.RepresentsIn (b.heap.New n.heap)) (w :: before).reverse
        (done ++ [t]) := by
      rw [reverse_cons]
      exact rel_append (Forall₂.imp_mem hb fun _ _ _ H => H.grow since.heap)
        (.cons ((value.congr payload).older hm.heap) .nil)
    obtain ⟨m', u, hd⟩ := ih (hm.trans since) items
    rw [append_assoc] at hd
    exact ⟨m', u, leads.trans hd.leads, hd.control, hd.since, hd.settled, hd.value⟩

lemma makes_array {items l} (place) (hl : Forall₂ (Makes rules) items l) :
    Makes rules (.array items place) (.array l) := by
  intro m frame hm
  have nothing : Forall₂ (m.heap.RepresentsIn (m.heap.New m.heap)) ([] : List Value).reverse [] :=
    .nil
  obtain ⟨m', v, hd⟩ := exists_delivers_items frame place hl (.refl m) nothing
  have start : m.step rules = m.evalItems [] items frame place := by
    rw [step_eval hm]
    cases items <;> rfl
  exact ⟨m', v, .step (start ▸ hd.leads), hd.control, hd.since, hd.settled, hd.value⟩

/-! ### Records -/

lemma exists_delivers_fields {r rest todo done} (frame place)
    (hr : Forall₂ (fun f g => f.1 = g.1 ∧ Makes rules f.2 g.2) rest todo) (hm : b.Since m)
    (hk : ((done ++ todo).map (·.1)).Nodup) (hn : b.heap.New m.heap (.record r))
    (hb : Forall₂ (fun f g => f.1 = .name g.1 ∧ m.heap.RepresentsIn
      (fun c => b.heap.New m.heap c ∧ c ≠ .record r) f.2 g.2) (m.heap.record r).fields done) :
    ∃ m' v, Delivers rules b (m.evalFields r rest frame place) m' v (.record (done ++ todo)) := by
  induction hr generalizing m done with
  | nil =>
    obtain ⟨keys, values⟩ := Forall₂.keys_values Key.name hb
    rw [append_nil]
    exact ⟨_, .boxed (.record r), .refl _, rfl, ⟨hm.stack, hm.heap, hm.frames⟩, .inl rfl,
      .record rfl hn keys (Forall₂.imp_mem values fun _ _ _ H =>
        H.transfer (fun _ hc => hc.1) (fun _ _ => rfl) fun _ _ => rfl)⟩
  | @cons f g rest todo hf _ ih =>
    obtain ⟨name, e⟩ := f
    obtain ⟨name', t⟩ := g
    obtain ⟨key, he⟩ := hf
    obtain rfl : name = name' := key
    obtain ⟨n, v, leads, since, settled, value⟩ :=
      he.part m frame (.recordField r name rest frame place)
    obtain ⟨w, convert, payload, -⟩ := settled.convert
    -- The record is as it was before the field was evaluated, and does not have the field.
    have present := since.heap.has _ hn.present
    have same := since.heap.record r hn.present
    have new : .name name ∉ (n.heap.record r).fields.map (·.1) := by
      rw [same, (Forall₂.keys_values Key.name hb).1]
      rw [map_append, map_cons] at hk
      rintro old
      obtain ⟨g, hg, key⟩ := mem_map.1 old
      exact (nodup_append.1 hk).2.2 _ (mem_map_of_mem hg) _ mem_cons_self (Key.name.inj key)
    have added := Heap.record_setField_new present new w
    rw [same] at added
    let k : Machine := { n with heap := n.heap.setField r name w }
    have next : n.resume rules (.recordField r name rest frame place) v =
        k.evalFields r rest frame place := by
      simp only [resume, onHeap_eq, convert]
      rfl
    have later := hm.trans since
    have since' : b.Since k :=
      ⟨later.stack, later.heap.setField ⟨hn.absent, present⟩ name w, later.frames⟩
    have fields : Forall₂ (fun f g => f.1 = .name g.1 ∧ k.heap.RepresentsIn
        (fun c => b.heap.New k.heap c ∧ c ≠ .record r) f.2 g.2) (k.heap.record r).fields
          (done ++ [(name, t)]) := by
      have kept {u : Value} {t : Tree}
          (H : n.heap.RepresentsIn (fun c => b.heap.New n.heap c ∧ c ≠ .record r) u t) :
          k.heap.RepresentsIn (fun c => b.heap.New k.heap c ∧ c ≠ .record r) u t :=
        (H.setField (fun _ hc => hc.2) present name w).transfer
          (fun _ hc => ⟨⟨hc.1.absent, Heap.has_setField.2 hc.1.present⟩, hc.2⟩) (fun _ _ => rfl)
          fun _ _ => rfl
      have value : n.heap.RepresentsIn (fun c => b.heap.New n.heap c ∧ c ≠ .record r) w t := by
        refine (value.congr payload).transfer (fun c hc => ⟨⟨?_, hc.present⟩, ?_⟩) (fun _ _ => rfl)
          fun _ _ => rfl
        · exact fun old => hc.absent (hm.heap.has c old)
        · rintro rfl
          exact hc.absent hn.present
      rw [show k.heap.record r = _ from added]
      refine rel_append (Forall₂.imp_mem hb fun g _ f H => ⟨H.1, kept ?_⟩)
        (.cons ⟨rfl, kept value⟩ .nil)
      exact H.2.transfer (fun c hc => ⟨⟨hc.1.absent, since.heap.has c hc.1.present⟩, hc.2⟩)
        (fun s hs => since.heap.array s hs.1.present) fun s hs => since.heap.record s hs.1.present
    obtain ⟨m', u, hd⟩ := ih since' (by rwa [append_assoc])
      ⟨hn.absent, Heap.has_setField.2 present⟩ fields
    rw [append_assoc] at hd
    exact ⟨m', u, (next ▸ leads).trans hd.leads, hd.control, hd.since, hd.settled, hd.value⟩

lemma makes_record {fields} {l : List (String × Tree)} (self place) (hk : (l.map (·.1)).Nodup)
    (hl : Forall₂ (fun f g => f.1 = g.1 ∧ Makes rules f.2 g.2) fields l) :
    Makes rules (.record fields self place) (.record l) := by
  intro m frame hm
  -- The machine behind the record that has no fields yet.
  let n : Machine := { m with
    heap := (m.heap.newRecord {}).2
    frames := m.frames.push { parent := frame, cells := [(self.id, .boxed (.record m.heap.records.size))] } }
  have empty : n.heap.record m.heap.records.size = {} := by
    rw [Heap.record_newRecord, if_pos rfl]
  have since : m.Since n := ⟨rfl, m.heap.grown_newRecord {}, .push ..⟩
  have new : m.heap.New n.heap (.record m.heap.records.size) :=
    ⟨lt_irrefl _, (Nat.lt_succ_self _).trans_eq (Array.size_push _).symm⟩
  have different : (([] ++ l : List (String × Tree)).map (·.1)).Nodup := hk
  obtain ⟨m', v, hd⟩ := exists_delivers_fields m.frames.size place hl since different new
    (by rw [empty]; exact .nil)
  have start : m.step rules = n.evalFields m.heap.records.size fields m.frames.size place := by
    rw [step_eval hm]
    rfl
  exact ⟨m', v, .step (start ▸ hd.leads), hd.control, hd.since, hd.settled, hd.value⟩

/-- **An expression that is written for data makes the data.** -/
theorem makes_of_builds (he : e.Builds t) (ht : t.Plain) : Makes rules e t := by
  induction t using Tree.induction generalizing e with
  | constant c =>
    cases he with
    | literal _ place => exact makes_literal c place
    | negated x inner place => exact makes_negated x inner place
  | array l ih =>
    cases he with
    | array place hl =>
      cases ht with
      | array ht =>
        refine makes_array place (forall₂_map_left_iff.2 ?_)
        exact Forall₂.imp_mem hl fun t hm e he => (ih t hm he (ht t hm)).boxed
  | record l ih =>
    cases he with
    | record self place hk hv hl =>
      cases ht with
      | record different _ ht =>
        refine makes_record self place different (Forall₂.entries id hk ?_)
        rw [hv]
        refine forall₂_map_left_iff.2 (Forall₂.imp_mem hl (forall_mem_map.2 ?_))
        exact fun f hf e he => (ih f hf he (ht f hf)).boxed

/-! ### The variable -/

lemma exists_run_declare (he : Makes rules e t) {i} (hi : (m.interpreter i).globals < m.frames.size)
    {p : Program} {slot} {place place'} (hp : p.body = .mk [.declare slot e place] [slot] place') :
    ∃ fuel value m' w, (∀ more, m.run rules (fuel + more) i p = (.ok value, m')) ∧
      (frameAt m'.frames (m.interpreter i).globals).get? slot.id = some w ∧
      m'.heap.Represents w t := by
  let globals := (m.interpreter i).globals
  let block : Block := .mk [.declare slot e place] [slot] place'
  -- The machine that executes the declaration.
  let s : Machine := { m.atRest with
    frames := m.frames.modify globals fun f => f.extend [slot]
    collectors := [i]
    stack := [.block block [] globals, .run m.current]
    current := i
    control := .exec (.declare slot e place) globals }
  have start : m.atRest.startRun i p = s := by
    simp only [startRun, hp]
    rfl
  obtain ⟨n, v, leads, since, -, value⟩ := he.part s globals (.declare slot globals place)
  have size : globals < s.frames.size := by
    show globals < (m.frames.modify globals _).size
    rwa [Array.size_modify]
  have bound : ((frameAt n.frames globals).get? slot.id).isSome := by
    refine since.frames.cells globals size slot.id ?_
    rw [Grows.frameAt_modify _ _ _ _ hi, if_pos rfl]
    exact Frame.isSome_get?_extend_self _ mem_cons_self
  have cell : n.cell? slot globals = some ⟨globals, slot.id⟩ := if_pos bound
  -- The machine at rest, when the block and the run have ended.
  let k : Machine := n.store ⟨globals, slot.id⟩ v
  let final : Machine :=
    { k with stack := [], collectors := k.collectors.tail, current := m.current, control := .give .null }
  have stack : n.stack = [.block block [] globals, .run m.current] := since.stack
  have declared : n.resume rules (.declare slot globals place) v = k.give .nothing := by
    simp only [resume, withCell, cell]
    rfl
  have ends : Leads rules (k.give .nothing) final := by
    have left : (k.give .nothing).step rules =
        { k with stack := [.run m.current], control := .give .nothing } :=
      step_resume (m := k.give .nothing) rfl stack
    have closed : ({ k with stack := [.run m.current], control := .give .nothing } : Machine).step rules =
        final := rfl
    exact .step (left ▸ .step (closed ▸ .refl _))
  have all : Leads rules s final := .step (leads.trans (declared ▸ ends))
  obtain ⟨fuel, finishes⟩ := all.finish (v := .null) rfl
  refine ⟨fuel, .null, final, v, fun more => ?_, ?_, ?_⟩
  · rw [run, start, finishes more]
  · show (frameAt (n.frames.modify globals fun f => f.set slot.id v) globals).get? slot.id = some v
    obtain ⟨u, hu⟩ := Option.isSome_iff_exists.1 bound
    rw [Grows.frameAt_modify _ _ _ _ (lt_of_lt_of_le size since.frames.size), if_pos rfl,
      Frame.get?_set, if_pos rfl, hu]
    rfl
  · exact value.transfer (fun _ _ => trivial) (fun _ _ => rfl) fun _ _ => rfl

/-- **The text of data reads back as the same data.**  The text of a value for data without functions, in
which numbers are integers below ten to the sixteenth and fields have names, is accepted as the value of
a variable, and running the declaration on any interpreter leaves a value for the same data in it. -/
theorem data_reads_back {h : Heap} {v : Value} {t : Tree} (hv : h.Represents v t) (ht : t.Plain) :
    ∃ q, h.quotedText v = .ok q ∧
      ∀ (options : CompileOptions) (natives : Registry) (linked : List Slot) (supply : Supply),
        ∃ u slot, (DynScript.compile ("var x = " ++ q ++ ";") options natives linked supply).result =
            .ok u ∧ u.ok ∧ u.exported = [slot] ∧ slot.name = "x" ∧
          ∀ (rules : Rules) (m : Machine) (i : Ref), (m.interpreter i).globals < m.frames.size →
            ∃ fuel value m' w,
              (∀ more, m.run rules (fuel + more) i u.program = (.ok value, m')) ∧
              (frameAt m'.frames (m.interpreter i).globals).get? slot.id = some w ∧
              m'.heap.Represents w t := by
  refine ⟨t.text, Heap.quotedText_of_represents hv, fun options natives linked supply => ?_⟩
  obtain ⟨u, slot, e, place, place', compiled, ok, exported, name, body, builds⟩ :=
    ht.compile options natives linked supply
  exact ⟨u, slot, compiled, ok, exported, name, fun rules m i hi =>
    exists_run_declare (makes_of_builds builds ht).boxed hi body⟩

theorem data_reads_back_record :
    let items : Array Value :=
      #[.boxed .null, .boxed (.number (-12)), .raw (.string "a\"b\\"), .boxed (.record 1)]
    let h : Heap :=
      { arrays := #[items], records := #[⟨[(.name "key", .boxed (.array 0))]⟩, {}] }
    let t : Tree := .record [("key", .array [.constant .null, .constant (.number (-12)),
      .constant (.text "a\"b\\"), .record []])]
    let m := initial .standard {} {} defaultLimit true
    h.Represents (.boxed (.record 0)) t ∧ t.Plain ∧
      ∃ (u : CompiledUnit) (slot : Slot) (fuel : Nat) (value : Value) (m' : Machine) (w : Value),
        (DynScript.compile "var x = \x7bkey: [null, -12, \"a\\\"b\\\\\", \x7b\x7d]\x7d;" {} .standard [] {}).result =
          .ok u ∧ u.ok ∧ slot.name = "x" ∧ m.run {} fuel 0 u.program = (.ok value, m') ∧
        (frameAt m'.frames 0).get? slot.id = some w ∧ m'.heap.Represents w t := by
  intro items h t m
  have value : h.Represents (.boxed (.record 0)) t :=
    .record rfl trivial rfl (.cons (.array rfl trivial (.cons (.constant rfl) (.cons (.constant rfl)
      (.cons (.constant rfl) (.cons (.record rfl trivial rfl .nil) .nil))))) .nil)
  have number : Number.Whole (-12) (-12) := ⟨by decide +kernel, by decide, by decide⟩
  have plain : t.Plain := by
    refine .record (by decide) ?_ ?_
    · rintro f hf
      cases mem_singleton.1 hf
      rfl
    · rintro f hf
      cases mem_singleton.1 hf
      refine .array ?_
      simp only [forall_mem_cons, not_mem_nil, false_implies, implies_true, and_true]
      exact ⟨.constant trivial, .constant ⟨_, number⟩, .constant trivial, .record .nil (forall_mem_nil _) (forall_mem_nil _)⟩
  obtain ⟨q, hq, reads⟩ := data_reads_back value plain
  have text : q = "\x7bkey: [null, -12, \"a\\\"b\\\\\", \x7b\x7d]\x7d" := by
    have written : t.text = "\x7bkey: [null, -12, \"a\\\"b\\\\\", \x7b\x7d]\x7d" := by decide +kernel
    rw [← written]
    exact Except.ok.inj (hq.symm.trans (Heap.quotedText_of_represents value))
  subst text
  obtain ⟨u, slot, compiled, ok, -, name, runs⟩ := reads {} .standard [] {}
  obtain ⟨fuel, v, m', w, run, cell, same⟩ := runs {} m 0 (by decide)
  exact ⟨value, plain, u, slot, fuel, v, m', w, compiled, ok, name, run 0, cell, same⟩

end Machine

end DynScript

import DynScript.Proofs.Isolation

/-!
# Containers in a run

An array keeps its length for ever, and a record only gets further fields at its end.
-/

namespace DynScript

open List

/-- The keys of a record, in their order. -/
def Record.keys (r : Record) : List Key :=
  r.fields.map (·.1)

namespace Heap

/-! ### What changes in a heap -/

/-- From the heap `h` to the heap `k`, arrays have kept their lengths, and records their keys in
their order, with further keys behind them. -/
structure Shapes (h k : Heap) : Prop where
  arrays_size : h.arrays.size ≤ k.arrays.size
  records_size : h.records.size ≤ k.records.size
  lengths : ∀ r, r < h.arrays.size → (k.array r).size = (h.array r).size
  keys : ∀ r, r < h.records.size → (h.record r).keys <+: (k.record r).keys

/-- From the heap `h` to the heap `k`, the arrays and records that were there are as they were, with at
most one exception. -/
structure Retains (h k : Heap) (exception : Option Container) : Prop where
  arrays_size : h.arrays.size ≤ k.arrays.size
  records_size : h.records.size ≤ k.records.size
  arrays : ∀ r, r < h.arrays.size → exception ≠ some (.array r) → k.array r = h.array r
  records : ∀ r, r < h.records.size → exception ≠ some (.record r) → k.record r = h.record r

/-- From the heap `h` to the heap `k`, one item of one array has been stored. -/
structure StoresItem (h k : Heap) (r : Ref) (i : Nat) (v : Value) : Prop where
  others : h.Retains k (some (.array r))
  inside : i < (h.array r).size
  length : (k.array r).size = (h.array r).size
  stored : (k.array r)[i]? = some v
  items : ∀ j, j ≠ i → (k.array r)[j]? = (h.array r)[j]?

/-- From the heap `h` to the heap `k`, one field of one record has been stored, in its place or at the
end. -/
structure StoresField (h k : Heap) (r : Ref) (name : String) (v : Value) : Prop where
  others : h.Retains k (some (.record r))
  keys : (k.record r).keys =
    if .name name ∈ (h.record r).keys then (h.record r).keys else (h.record r).keys ++ [.name name]
  stored : (k.record r).get? name = some v
  fields : ∀ key, key ≠ .name name → (k.record r).fields.lookup key = (h.record r).fields.lookup key

variable {h k l : Heap} {r : Ref} {name : String} {v : Value}

lemma Adds.retains (a : h.Adds k) : h.Retains k none :=
  ⟨a.arrays_size, a.records_size, fun r hr _ => a.arrays r hr, fun r hr _ => a.records r hr⟩

namespace Retains

lemma refl (h : Heap) : h.Retains h none :=
  (Adds.refl h).retains

lemma trans (a : h.Retains k none) (b : k.Retains l none) : h.Retains l none where
  arrays_size := le_trans a.arrays_size b.arrays_size
  records_size := le_trans a.records_size b.records_size
  arrays r hr no := (b.arrays r (lt_of_lt_of_le hr a.arrays_size) no).trans (a.arrays r hr no)
  records r hr no := (b.records r (lt_of_lt_of_le hr a.records_size) no).trans (a.records r hr no)

end Retains

/-! ### Fields -/

lemma mem_keys_iff (x : Record) (name) : .name name ∈ x.keys ↔ (x.get? name).isSome := by
  rw [Record.keys, Record.get?, lookup_isSome_iff]
  simp

lemma keys_put (x : Record) (name v) :
    (x.put name v).keys = if .name name ∈ x.keys then x.keys else x.keys ++ [.name name] := by
  rw [Record.put]
  by_cases there : (x.get? name).isSome
  · rw [if_pos there, if_pos ((mem_keys_iff x name).2 there), Record.keys, Record.keys, map_map]
    refine map_congr_left fun f _ => ?_
    by_cases same : f.1 = .name name
    · simp [same]
    · simp [same]
  · rw [if_neg there, if_neg (there ∘ (mem_keys_iff x name).1), Record.keys, map_append]
    rfl

lemma lookup_map_replace (l : List (Key × Value)) (key other v) :
    (l.map fun f => if f.1 = key then (key, v) else f).lookup other =
      if other = key then (l.lookup key).map fun _ => v else l.lookup other := by
  induction l with
  | nil => simp
  | cons f l ih =>
    rw [map_cons, lookup_cons, lookup_cons, lookup_cons, ih]
    by_cases same : other = key
    · by_cases here : key = f.1
      · simp [same, ← here]
      · simp [same, Ne.symm here, beq_eq_false_iff_ne.2 here]
    · by_cases here : f.1 = key
      · simp [here, beq_eq_false_iff_ne.2 same, same]
      · simp [here, same]

lemma lookup_put (x : Record) (name other v) :
    (x.put name v).fields.lookup other =
      if other = .name name then some v else x.fields.lookup other := by
  rw [Record.put]
  by_cases there : (x.get? name).isSome
  · obtain ⟨u, hu⟩ := Option.isSome_iff_exists.1 there
    rw [if_pos there]
    refine (lookup_map_replace x.fields (.name name) other v).trans ?_
    rw [show x.fields.lookup (.name name) = some u from hu]
    rfl
  · rw [if_neg there]
    refine (lookup_append ..).trans ?_
    by_cases same : other = .name name
    · have absent : x.fields.lookup (.name name) = none := Option.not_isSome_iff_eq_none.1 there
      simp [same, absent]
    · simp [same, lookup_cons, beq_eq_false_iff_ne.2 same]

/-! ### Stores -/

lemma storesItem_setItem (a : h.Adds k) (hr : r < h.arrays.size) {i : Nat}
    (hi : i < (h.array r).size) (v) : h.StoresItem (k.setItem r i v) r i v := by
  have same : (k.setItem r i v).array r = (h.array r).setIfInBounds i v := by
    rw [array_setItem, if_pos rfl, a.arrays r hr]
  refine ⟨⟨?_, a.records_size, fun q hq other => ?_, fun q hq _ => a.records q hq⟩, hi, ?_, ?_, ?_⟩
  · simpa [setItem] using a.arrays_size
  · rw [array_setItem, if_neg (fun e => other (by rw [e])), a.arrays q hq]
  · simp [same]
  · simp [same, hi]
  · intro j hj
    rw [same, Array.getElem?_setIfInBounds_ne (Ne.symm hj)]

lemma storesField_setField (a : h.Adds k) (hr : r < h.records.size) (name v) :
    h.StoresField (k.setField r name v) r name v := by
  have there : r < k.records.size := lt_of_lt_of_le hr a.records_size
  have same : (k.setField r name v).record r = (h.record r).put name v := by
    rw [record_setField _ _ _ _ there, if_pos rfl, a.records r hr]
  refine ⟨⟨a.arrays_size, ?_, fun q hq _ => a.arrays q hq, fun q hq other => ?_⟩, ?_, ?_, ?_⟩
  · simpa [setField] using a.records_size
  · rw [record_setField _ _ _ _ there, if_neg (fun e => other (by rw [e])), a.records q hq]
  · rw [same, keys_put]
  · rw [same, Record.get?, lookup_put, if_pos rfl]
  · intro other ho
    rw [same, lookup_put, if_neg ho]

lemma retains_setItem (a : h.Adds k) (hr : h.arrays.size ≤ r) (i : Nat) (v) :
    h.Retains (k.setItem r i v) none where
  arrays_size := by simpa [setItem] using a.arrays_size
  records_size := a.records_size
  arrays q hq _ := by
    rw [array_setItem, if_neg (ne_of_lt (lt_of_lt_of_le hq hr)), a.arrays q hq]
  records q hq _ := a.records q hq

lemma retains_setField (a : h.Adds k) (hr : h.records.size ≤ r) (name v) :
    h.Retains (k.setField r name v) none where
  arrays_size := a.arrays_size
  records_size := by simpa [setField] using a.records_size
  arrays q hq _ := a.arrays q hq
  records q hq _ := by
    refine Eq.trans ?_ (a.records q hq)
    simp only [setField, record, Array.getD_eq_getD_getElem?, Array.getElem?_modify,
      if_neg (ne_of_gt (lt_of_lt_of_le hq hr))]

/-! ### Shapes -/

namespace Shapes

lemma refl (h : Heap) : h.Shapes h :=
  ⟨le_rfl, le_rfl, fun _ _ => rfl, fun _ _ => prefix_rfl⟩

lemma trans (a : h.Shapes k) (b : k.Shapes l) : h.Shapes l where
  arrays_size := le_trans a.arrays_size b.arrays_size
  records_size := le_trans a.records_size b.records_size
  lengths r hr := (b.lengths r (lt_of_lt_of_le hr a.arrays_size)).trans (a.lengths r hr)
  keys r hr := (a.keys r hr).trans (b.keys r (lt_of_lt_of_le hr a.records_size))

end Shapes

lemma Retains.shapes (a : h.Retains k none) : h.Shapes k where
  arrays_size := a.arrays_size
  records_size := a.records_size
  lengths r hr := congrArg Array.size (a.arrays r hr (by simp))
  keys r hr := by simp [a.records r hr]

lemma StoresItem.shapes {i : Nat} (a : h.StoresItem k r i v) : h.Shapes k where
  arrays_size := a.others.arrays_size
  records_size := a.others.records_size
  lengths q hq := by
    by_cases same : q = r
    · rw [same, a.length]
    · rw [a.others.arrays q hq (by simpa using Ne.symm same)]
  keys q hq := by simp [a.others.records q hq]

lemma StoresField.shapes (a : h.StoresField k r name v) : h.Shapes k where
  arrays_size := a.others.arrays_size
  records_size := a.others.records_size
  lengths q hq := by rw [a.others.arrays q hq (by simp)]
  keys q hq := by
    by_cases same : q = r
    · rw [same, a.keys]
      split
      · exact prefix_rfl
      · exact prefix_append _ _
    · have kept := a.others.records q hq (by simpa using Ne.symm same)
      exact kept ▸ prefix_rfl

end Heap

/-! ### Records under construction -/

/-- The record under construction whose next field a pending part is, if it is one. -/
def Pending.building? : Pending → Option Ref
  | .recordField r .. => some r
  | _ => none

namespace Machine

/-- The records under construction, the innermost one first. -/
def building (m : Machine) : List Ref :=
  m.stack.filterMap Pending.building?

/-- How arrays and records change in a step: not at all, by an assignment to an item or field, or by
the next field of the record under construction. -/
inductive Change (m n : Machine) : Prop where
  | nothing (h : m.heap.Retains n.heap none)
  | item {c x v : Value} {stack} {r} {i : Nat} (assigns : m.AssignsItem c x stack)
    (hr : c.datum? = some (.array r)) (hi : x.number?.bind Number.toInt? = some (i : Int))
    (stores : m.heap.StoresItem n.heap r i v) (done : n.control = .give v)
  | field {c x v : Value} {stack} {r} {name}
    (assigns : m.AssignsField c x stack) (hr : c.datum? = some (.record r))
    (hx : Value.fieldName m.heap x = .ok name) (stores : m.heap.StoresField n.heap r name v)
    (done : n.control = .give v)
  | fill {u v} {stack} {r} {name} {rest}
    {frame} {place} (hc : m.control = .give u)
    (hs : m.stack = .recordField r name rest frame place :: stack)
    (stores : m.heap.StoresField n.heap r name v) (goes : ∀ e, n.control ≠ .raise e)

variable {rules : Rules} {m n o old : Machine}

lemma Change.shapes (h : Change m n) : m.heap.Shapes n.heap := by
  cases h with
  | nothing h => exact h.shapes
  | item _ _ _ stores => exact stores.shapes
  | field _ _ _ stores => exact stores.shapes
  | fill _ _ stores => exact stores.shapes

lemma Change.retains_of_raise (h : Change m n) {e} (he : n.control = .raise e) :
    m.heap.Retains n.heap none := by
  cases h with
  | nothing h => exact h
  | item _ _ _ _ done => cases done.symm.trans he
  | field _ _ _ _ done => cases done.symm.trans he
  | fill _ _ _ goes => exact absurd he (goes e)

/-! ### Work -/

/-- Neither the containers nor the records under construction change. -/
structure Spares (m n : Machine) : Prop where
  heap : m.heap.Retains n.heap none
  building : n.building = m.building

namespace Spares

lemma refl (m) : Spares m m :=
  ⟨.refl _, rfl⟩

lemma trans (h : Spares m n) (k : Spares n o) : Spares m o :=
  ⟨h.heap.trans k.heap, k.building.trans h.building⟩

lemma pend {p : Pending} (hp : p.building? = none) (c) :
    Spares m { m with control := c, stack := p :: m.stack } :=
  ⟨.refl _, by simp [Machine.building, hp]⟩

end Spares

lemma building?_of_isPlain {p : Pending} (hp : p.isPlain) : p.building? = none := by
  cases p <;> first | rfl | cases hp

lemma Works.spares (h : Works Heap.Adds m n) : Spares m n := by
  induction h with
  | refl m => exact .refl m
  | trans _ _ ih ih' => exact ih.trans ih'
  | go m c => exact ⟨.refl _, rfl⟩
  | pend m hp c => exact .pend (building?_of_isPlain hp) c
  | heap m hh => exact ⟨hh.retains, rfl⟩
  | function m code frame =>
    exact ⟨⟨le_rfl, le_rfl, fun _ _ _ => rfl, fun _ _ _ => rfl⟩, rfl⟩
  | frames m F => exact ⟨.refl _, rfl⟩
  | world m hw => exact ⟨.refl _, rfl⟩
  | send m supply hl => exact ⟨.refl _, rfl⟩
  | warn m w =>
    obtain ⟨interpreters, world, hw⟩ := warn_eq m w
    rw [hw]
    exact ⟨.refl _, rfl⟩

lemma spares_enter (m) (c self arguments place) : Spares m (m.enter c self arguments place) := by
  unfold Machine.enter
  dsimp only
  split
  · exact ⟨.refl _, rfl⟩
  · exact ⟨.refl _, rfl⟩

lemma spares_startRun (m) (i p) : Spares m (m.startRun i p) := by
  unfold Machine.startRun Machine.runStatements
  dsimp only
  split
  · exact ⟨.refl _, rfl⟩
  · exact ⟨.refl _, rfl⟩

lemma evalFields_eq (m : Machine) (r rest frame place) :
    (m.evalFields r rest frame place).heap = m.heap ∧
      ((m.evalFields r rest frame place).building = m.building ∨
        (m.evalFields r rest frame place).building = r :: m.building) ∧
      ∀ e, (m.evalFields r rest frame place).control ≠ .raise e := by
  cases rest with
  | nil => exact ⟨rfl, .inl rfl, by rintro e ⟨⟩⟩
  | cons f rest => exact ⟨rfl, .inr rfl, by rintro e ⟨⟩⟩

/-! ### Steps -/

/-- A record comes under construction only where its literal is evaluated, and it is a new one. -/
def Constructs (m n : Machine) : Prop :=
  n.building <:+ m.building ∨ (∃ fields self place frame,
    m.control = .eval (.record fields self place) frame) ∧ n.building = m.heap.records.size :: m.building

lemma building_pop {p stack} (hs : m.stack = p :: stack) :
    ({ m with stack := stack } : Machine).building <:+ m.building := by
  rw [building, building, hs, filterMap_cons]
  split
  · exact suffix_rfl
  · exact suffix_cons _ _

lemma Spares.changes {p stack} (hs : m.stack = p :: stack)
    (h : Spares { m with stack := stack } n) : Change m n ∧ Constructs m n :=
  ⟨.nothing h.heap, .inl (h.building ▸ building_pop hs)⟩

/-- **What a step does to containers**, on a machine whose host only adds to the heap. -/
theorem Stride.change (h : Stride Heap.Adds m n) : Change m n ∧ Constructs m n := by
  have same {o : Machine} (k : Spares m o) : Change m o ∧ Constructs m o :=
    ⟨.nothing k.heap, .inl (k.building ▸ suffix_rfl)⟩
  cases h with
  | works w => exact same w.spares
  | resumes hs hp w => exact w.spares.changes hs
  | enters w hc room self arguments place => exact same (w.spares.trans (spares_enter _ _ _ _ _))
  | @leavesCall _ _ owner caller _ stack hs w =>
    have left : Spares { m with stack := stack } (({ m with stack := stack } : Machine).leaveCall
      owner caller) := ⟨.refl _, rfl⟩
    exact (left.trans w.spares).changes hs
  | leavesRun hs hh hc => exact Spares.changes hs ⟨hh.retains, rfl⟩
  | @begins o w p place =>
    have ready : Spares o { (o.newInterpreter defaultLimit true).2 with
      stack := .site place :: o.stack } := ⟨.refl _, rfl⟩
    exact same (w.spares.trans (ready.trans (spares_startRun _ _ p)))
  | builds hc F inner =>
    obtain ⟨heap, building, -⟩ := evalFields_eq
      { m with heap := (m.heap.newRecord {}).2, frames := F } m.heap.records.size _ inner _
    refine ⟨.nothing (heap ▸ (Heap.Adds.newRecord m.heap {}).retains), ?_⟩
    rcases building with building | building
    · exact .inl (building ▸ suffix_rfl)
    · exact .inr ⟨⟨_, _, _, _, hc⟩, building⟩
  | @storesItem c x stack a r i k hr hi inside hk v =>
    obtain ⟨p, hs, -⟩ := a.stack_eq
    refine ⟨?_, .inl (building_pop hs)⟩
    -- An array that was made in this very step is not one of those that are there.
    by_cases there : r < m.heap.arrays.size
    · rw [hk.arrays r there] at inside
      exact .item a hr hi (Heap.storesItem_setItem hk there inside v) rfl
    · exact .nothing (Heap.retains_setItem hk (not_lt.1 there) i v)
  | @storesField c x stack a r name k hr hx hk v =>
    obtain ⟨p, hs, -⟩ := a.stack_eq
    refine ⟨?_, .inl (building_pop hs)⟩
    by_cases there : r < m.heap.records.size
    · exact .field a hr hx (Heap.storesField_setField hk there name v) rfl
    · exact .nothing (Heap.retains_setField hk (not_lt.1 there) name v)
  | @fills r name rest frame place _ stack hc hs k hk v =>
    obtain ⟨heap, building, goes⟩ := evalFields_eq
      { m with stack := stack, heap := k.setField r name v } r rest frame place
    constructor
    · by_cases there : r < m.heap.records.size
      · refine .fill (v := v) hc hs ?_ goes
        rw [heap]
        exact Heap.storesField_setField hk there name v
      · exact .nothing (heap ▸ Heap.retains_setField hk (not_lt.1 there) name v)
    -- The record stays under construction, or it is given and leaves the stack.
    · have before : m.building = r :: ({ m with stack := stack } : Machine).building := by
        rw [Machine.building, hs]
        rfl
      rcases building with building | building
      · exact .inl (building ▸ before ▸ suffix_cons _ _)
      · exact .inl (building ▸ before ▸ suffix_rfl)

/-! ### The standard library -/

/-- A machine with the natives of the standard library only, in its registry and in its heap. -/
structure Standard (m : Machine) : Prop where
  natives : m.registry.Standard
  closures : ∀ r c, m.heap.function r = .closure c → c.code.body.Standard
  functions : ∀ r f, m.heap.function r = .native f → f.isStandard

/-- A machine with the natives and the input of another, and nothing else. -/
def blank (m : Machine) : Machine :=
  { registry := m.registry, world := { hooks := m.world.hooks } }

lemma beyond_blank (v : Value) : v.Beyond m.blank.border := by
  have datum (d : Datum) : d.Beyond m.blank.border := by
    cases d <;> first | trivial | exact Nat.zero_le _
  cases v with
  | boxed d mark => exact datum d
  | raw d => exact datum d
  | alien a => cases a <;> first | trivial | exact Nat.zero_le _

namespace Standard

lemma sealed (h : m.Standard) : m.Sealed m.blank where
  registry := rfl
  input := rfl
  heap := by
    refine ⟨Nat.zero_le _, Nat.zero_le _, Nat.zero_le _, fun r hr => absurd hr (Nat.not_lt_zero r),
      fun r hr => absurd hr (Nat.not_lt_zero r), fun r hr => absurd hr (Nat.not_lt_zero r),
      fun _ _ v _ => beyond_blank v, fun _ _ f _ => beyond_blank f.2, fun r _ => ?_⟩
    cases hf : m.heap.function r with
    | closure c => exact ⟨Nat.zero_le _, Nat.zero_le _, h.closures r c hf⟩
    | native f => exact h.functions r f hf
  frames_size := Nat.zero_le _
  oldFrames r hr := absurd hr (Nat.not_lt_zero r)
  newFrames r _ := ⟨fun _ _ => Nat.zero_le _, fun c _ => beyond_blank c.2⟩
  interpreters_size := Nat.zero_le _
  posts r hr := absurd hr (Nat.not_lt_zero r)

lemma screened (h : m.Standard) : m.blank.Screened :=
  ⟨h.natives, fun v _ => .inl (beyond_blank v)⟩

lemma of_sealed (h : m.Standard) (hn : n.Sealed m.blank) : n.Standard where
  natives := hn.registry ▸ h.natives
  closures r c hc := by
    have beyond := hn.heap.newFunctions r (Nat.zero_le r)
    rw [hc] at beyond
    exact beyond.2.2
  functions r f hf := by
    have beyond := hn.heap.newFunctions r (Nat.zero_le r)
    rw [hf] at beyond
    exact beyond

lemma startRun (h : m.Standard) (i) {p : Program} (hp : p.body.Standard) :
    (m.atRest.startRun i p).Apart m.blank [] := by
  have working : m.atRest.Working m.blank [] :=
    ⟨{ h.sealed with }, Nat.zero_le _, [], rfl, forall_mem_nil _⟩
  exact working.startRun (Nat.zero_le i) (Nat.zero_le _) hp

end Standard

lemma Apart.iterate (ho : old.Screened) (h : m.Apart old []) (k : Nat) :
    ((step rules)^[k] m).Apart old [] := by
  induction k with
  | zero => exact h
  | succ k ih =>
    rw [Function.iterate_succ_apply']
    -- Only a machine that is at rest could take up what was pending before the run.
    by_cases rest : ((step rules)^[k] m).stack = [] ∧ TakesUp ((step rules)^[k] m).control
    · rw [step_of_nil rest.1 rest.2]
      exact ih
    · exact apart_step ho ih rest

/-! ### The host -/

lemma call_eq_of_beyond {b} {c : Callable} (hc : c.Beyond b) (self arguments place) :
    m.call rules c self arguments place = m.call { rules with host := .none } c self arguments place := by
  cases c with
  | closure c => rfl
  | native f =>
    cases hb : f.body with
    | builtin x => simp only [Machine.call, hb]
    | host symbol bound => simp [Callable.Beyond, NativeFunction.isStandard, hb] at hc

/-- **Where everything is standard, a step does not depend on the host.** -/
theorem step_eq_of_apart {foot} (h : m.Apart old foot) :
    m.step rules = m.step { rules with host := .none } := by
  unfold step
  cases hc : m.control with
  | apply callee arguments place =>
    obtain ⟨beyond, -⟩ : callee.Beyond old.border ∧ _ := hc ▸ h.control
    dsimp only
    unfold Machine.apply
    cases callee with
    | native f => exact call_eq_of_beyond (b := old.border) (c := .native f) beyond _ _ _
    | value v =>
      dsimp only
      split
      · rfl
      · split
        · rename_i r hd
          exact call_eq_of_beyond (h.working.store.heap.newFunctions r (Value.Beyond.datum beyond hd)) _ _ _
        · rfl
  | _ => rfl

lemma Apart.change {foot} (h : m.Apart old foot) :
    Change m (m.step rules) ∧ Constructs m (m.step rules) := by
  rw [step_eq_of_apart h]
  exact (stride_step (fun _ _ adds => adds) (fun _ _ _ _ => .refl _) m).change

lemma Apart.shapes (ho : old.Screened) (h : m.Apart old []) (l : Nat) :
    m.heap.Shapes ((step rules)^[l] m).heap := by
  induction l with
  | zero => exact .refl _
  | succ l ih =>
    rw [Function.iterate_succ_apply']
    exact ih.trans (h.iterate ho l).change.1.shapes

/-- **Containers change in place in two ways only.**  At every step `k` of a run with the standard
library, the arrays keep their lengths and the records their keys at all times `l` to come.  In the step
itself nothing changes but the one item or field that is assigned, or the next field of the record under
construction; a record is under construction only since its literal was evaluated, when it was made.  A
step that fails has changed nothing.  What the run leaves behind is standard again. -/
theorem containers_change_in_place (hm : m.Standard) (i : Ref) {p : Program} (hp : p.body.Standard)
    (k l : Nat) :
    let s := (step rules)^[k] (m.atRest.startRun i p)
    s.heap.Shapes ((step rules)^[l] s).heap ∧
    Change s (s.step rules) ∧ Constructs s (s.step rules) ∧
    (∀ e, (s.step rules).control = .raise e → s.heap.Retains (s.step rules).heap none) ∧
    s.Standard := by
  intro s
  have apart : s.Apart m.blank [] := (hm.startRun i hp).iterate hm.screened k
  obtain ⟨change, constructs⟩ : Change s (s.step rules) ∧ Constructs s (s.step rules) := apart.change
  exact ⟨apart.shapes hm.screened l, change, constructs, fun e he => change.retains_of_raise he,
    hm.of_sealed apart.working.store⟩

/-- A script changes an item of an array through a field of a record, and then fails to change another. -/
theorem containers_change_in_place_item : ∃ u : CompiledUnit,
    (DynScript.compile "var x = [\"a\"]; var y = {f: x}; y.f[0] = \"b\"; x[1] = \"c\";" {} .standard []
      {}).result.toOption = some u ∧
    let s := (step {})^[27] ((initial .standard {} {} defaultLimit true).atRest.startRun 0 u.program)
    (s.heap.array 0)[0]?.bind (·.string?) = some "a" ∧
    ((s.step {}).heap.array 0)[0]?.bind (·.string?) = some "b" ∧
    Change s (s.step {}) ∧ s.heap.Shapes ((step {})^[30] s).heap := by
  have computed : (DynScript.compile
      "var x = [\"a\"]; var y = {f: x}; y.f[0] = \"b\"; x[1] = \"c\";" {} .standard []
      {}).result.toOption.any (fun u =>
        let s := (step {})^[27] ((initial .standard {} {} defaultLimit true).atRest.startRun 0 u.program)
        decide ((s.heap.array 0)[0]?.bind (·.string?) = some "a" ∧
          ((s.step {}).heap.array 0)[0]?.bind (·.string?) = some "b")) = true := by
    decide +kernel
  obtain ⟨u, hu, computed⟩ := (Option.any_eq_true _ _).1 computed
  have standard : (initial .standard {} {} defaultLimit true).Standard := by
    refine ⟨Registry.standard_standard, ?_, ?_⟩
    · rintro r c hc
      cases r <;> cases hc
    · rintro r f hf
      cases r <;> cases hf <;> rfl
  have compiled : u.program.body.Standard :=
    standard_of_compile Registry.standard_standard (eq_ok_of_toOption hu)
  obtain ⟨shapes, change, -⟩ := @containers_change_in_place {} _ standard 0 _ compiled 27 30
  obtain ⟨before, after⟩ := of_decide_eq_true computed
  exact ⟨u, hu, before, after, change, shapes⟩

end Machine

end DynScript

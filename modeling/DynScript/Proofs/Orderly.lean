import DynScript.Proofs.Boxing
import DynScript.Proofs.FitStep

/-!
# What values are boxed

Whatever stands in an array or record of the language is boxed, and so is what conversion gives.  An
operator gives a boxed value when one of its operands is boxed.
-/

namespace DynScript

open List

/-- The functions of the application make no functions of scripts of their own, and what the containers
of the language hold stays boxed. -/
structure Host.Orderly (host : Host) : Prop where
  keeps : ∀ (symbol : String) (bound arguments : List Value) (h : Heap),
    h.Keeps (host.call symbol bound arguments h).2
  boxed : ∀ (w : Likeness) (A : Container → Prop) (h : Heap), h.Like w False A h →
    ∀ (symbol : String) (bound : List Value), (∀ v ∈ bound, v.Hosted False A v) →
    ∀ arguments : List Value, (∀ v ∈ arguments, v.Boxed False A v) →
    ∃ B, A ≤ B ∧ (host.call symbol bound arguments h).1.Like w False B
        (host.call symbol bound arguments h).1 ∧
      (host.call symbol bound arguments h).2.Like w False B (host.call symbol bound arguments h).2

lemma Host.Orderly.fair {host : Host} (hh : host.Orderly) : host.Fair False True := by
  intro w A h _ hk symbol bound hb vs _ hv twin
  obtain ⟨rfl, rfl⟩ := twin trivial
  exact hh.boxed w A h hk symbol bound hb vs (forall₂_same.1 hv)

lemma Host.orderly_none : Host.none.Orderly where
  keeps _ _ _ h := .refl h
  boxed _ A _ h _ _ _ _ _ := ⟨A, le_rfl, .error ⟨rfl, rfl, .none⟩, h⟩

/-! ### Operations on the heap -/

/-- An operation that keeps what `I` says of the heap, and whose results are as `Q` says. -/
def HeapM.Keeping {α : Type} (I : Heap → Prop) (x : HeapM α) (Q : α → Prop) : Prop :=
  ∀ h, I h → I (HeapM.left (x h)) ∧ ∀ a k, x h = .ok a k → Q a

/-- Whatever an operation gives has the property `Q`. -/
abbrev HeapM.Yields {α : Type} (x : HeapM α) (Q : α → Prop) : Prop :=
  x.Keeping (fun _ => True) Q

namespace HeapM.Keeping

variable {α β : Type} {I : Heap → Prop} {x : HeapM α} {f : α → HeapM β} {Q : α → Prop} {R : β → Prop}

lemma pure {a : α} (h : Q a) : Keeping I (Pure.pure a) Q := by
  intro k hk
  refine ⟨hk, ?_⟩
  rintro _ _ ⟨⟩
  exact h

lemma throw (e) : Keeping I (MonadExcept.throw e : HeapM α) Q := by
  intro k hk
  refine ⟨hk, ?_⟩
  rintro _ _ ⟨⟩

lemma bind (hx : x.Keeping I Q) (hf : ∀ a, Q a → (f a).Keeping I R) :
    Keeping I (x >>= f) R := by
  intro h hs
  obtain ⟨left, result⟩ := hx h hs
  change I (HeapM.left (EStateM.bind x f h)) ∧ ∀ a k, EStateM.bind x f h = .ok a k → R a
  unfold EStateM.bind
  cases hr : x h with
  | ok a k =>
    rw [hr] at left
    exact hf a (result a k hr) k left
  | error e k =>
    rw [hr] at left
    refine ⟨left, ?_⟩
    rintro _ _ ⟨⟩

lemma get {f : Heap → HeapM β} (hf : ∀ h, I h → (f h).Keeping I R) :
    Keeping I (MonadStateOf.get >>= f) R :=
  fun h hs => hf h hs h hs

lemma mapM {γ : Type} {g : γ → HeapM α} {l : List γ} (hg : ∀ c ∈ l, (g c).Keeping I Q) :
    Keeping I (l.mapM g) fun l => ∀ a ∈ l, Q a := by
  induction l with
  | nil => exact .pure (forall_mem_nil _)
  | cons c l ih =>
    rw [mapM_cons]
    refine (hg c mem_cons_self).bind fun a ha => ?_
    refine (ih fun d hd => hg d (mem_cons_of_mem _ hd)).bind fun l hl => ?_
    exact .pure (forall_mem_cons.2 ⟨ha, hl⟩)

lemma look {f : Heap → Except Fault α} (hf : ∀ h, I h → ∀ a, f h = .ok a → Q a) :
    Keeping I (HeapM.look f) Q := by
  intro h hs
  unfold HeapM.look
  cases hr : f h with
  | ok a =>
    refine ⟨hs, ?_⟩
    rintro _ _ ⟨⟩
    exact hf h hs a hr
  | error e =>
    refine ⟨hs, ?_⟩
    rintro _ _ ⟨⟩

lemma make {f : Heap → α × Heap} (hf : ∀ h, I h → I (f h).2 ∧ Q (f h).1) :
    Keeping I (HeapM.make f) Q := by
  intro h hs
  refine ⟨(hf h hs).1, ?_⟩
  rintro _ _ ⟨⟩
  exact (hf h hs).2

lemma modifying {f : Heap → Heap} (hf : ∀ h, I h → I (f h)) :
    Keeping I (modify f : HeapM PUnit) fun _ => True :=
  fun h hs => ⟨hf h hs, fun _ _ _ => trivial⟩

lemma free (x : HeapM α) : x.Yields fun _ => True :=
  fun _ _ => ⟨trivial, fun _ _ _ => trivial⟩

lemma after (hf : ∀ a, (f a).Yields R) : HeapM.Yields (x >>= f) R :=
  (free x).bind fun a _ => hf a

end HeapM.Keeping

namespace Value

variable {v : Value}

lemma yields_convertWith {copy : Container → HeapM Value}
    (hc : ∀ c, (copy c).Yields fun u => u.isBoxed) (v : Value) :
    (v.convertWith copy).Yields fun u => u.isBoxed := by
  unfold convertWith
  split
  · exact .pure rfl
  · split
    · exact .pure rfl
    · exact hc _
  · exact hc _
  · split
    · exact .pure rfl
    · exact .throw _
  · exact .after fun _ => .pure rfl
  · exact .throw _

lemma yields_convert (v : Value) : v.convert.Yields fun u => u.isBoxed := by
  refine .after fun h => ?_
  cases h.containers + 1 with
  | zero => exact yields_convertWith (fun _ => .throw _) v
  | succ depth => exact yields_convertWith (fun c => .after fun _ => .pure rfl) v

lemma yields_setIndex (container index v : Value) :
    (container.setIndex index v).Yields fun u => u.isBoxed := by
  refine .after fun kind => ?_
  split
  · exact v.yields_convert.bind fun _ hu => .after fun _ => .after fun _ => .pure hu
  · exact .throw _
  · exact .throw _

lemma yields_setField (container key v : Value) :
    (container.setField key v).Yields fun u => u.isBoxed := by
  refine .after fun kind => .after fun name => ?_
  split
  · exact v.yields_convert.bind fun _ hu => .after fun _ => .pure hu
  · exact .throw _

lemma isBoxed_wrap (b : Bool) (d) : (wrap b d).isBoxed = b := by
  cases b <;> rfl

end Value

section

variable {w : Likeness} {A : Container → Prop} {h : Heap} {c i u v : Value}

lemma exists_of_bind_eq_ok {α β : Type} {x} {f : α → Except Fault β} {b : β} (e : x >>= f = .ok b) :
    ∃ a, x = .ok a ∧ f a = .ok b := by
  cases x with
  | error _ => cases e
  | ok a => exact ⟨a, rfl, e⟩

lemma Value.getIndex_cases (hu : c.getIndex h i = .ok u) :
    (∃ r, c.datum? = some (.array r) ∧ (u = .null ∨ u ∈ h.array r)) ∨
      ∃ s, u = wrap (c.isBoxed || i.isBoxed) (.string s) := by
  obtain ⟨kind, -, hu⟩ := exists_of_bind_eq_ok hu
  split at hu
  · rename_i r hr
    obtain ⟨n, -, hu⟩ := exists_of_bind_eq_ok hu
    cases hu
    refine .inl ⟨r, hr, ?_⟩
    rw [Array.getD_eq_getD_getElem?]
    cases found : (h.array r)[n]? with
    | none => exact .inl rfl
    | some x => exact .inr (Array.mem_of_getElem? found)
  · obtain ⟨n, -, hu⟩ := exists_of_bind_eq_ok hu
    cases hu
    exact .inr ⟨_, rfl⟩
  · cases hu

lemma Value.getField_cases (hu : c.getField h i = .ok u) :
    ∃ r name, c.datum? = some (.record r) ∧ (h.record r).get? name = some u := by
  obtain ⟨kind, -, hu⟩ := exists_of_bind_eq_ok hu
  obtain ⟨name, -, hu⟩ := exists_of_bind_eq_ok hu
  split at hu
  · rename_i r hr
    split at hu
    · cases hu
      exact ⟨r, name, hr, ‹_›⟩
    · cases hu
  · cases hu

lemma Heap.unary_cases {op} (hu : h.unary op v = .ok u) :
    (∃ b, u = .wrap v.isBoxed (.bool b)) ∨ ∃ x, u = .wrap v.isBoxed (.number x) := by
  unfold Heap.unary at hu
  split at hu
  · cases hu
    exact .inl ⟨_, rfl⟩
  · split at hu
    · obtain ⟨kinds, -, hu⟩ := exists_of_bind_eq_ok hu
      cases hu
    · obtain ⟨x, -, hu⟩ := exists_of_bind_eq_ok hu
      cases hu
      exact .inr ⟨x, rfl⟩

lemma Value.isBoxed_getIndex (hh : h.Like w False A h) (hc : c.Held False A c)
    (hb : c.isBoxed ∨ i.isBoxed) (hu : c.getIndex h i = .ok u) : u.isBoxed := by
  rcases getIndex_cases hu with ⟨r, hr, rfl | hx⟩ | ⟨s, rfl⟩
  · rfl
  · exact hh.items r (hc.container hr rfl) u (Array.mem_toList_iff.2 hx)
  · rw [isBoxed_wrap]
    simpa using hb

lemma Value.isBoxed_getField (hh : h.Like w False A h) (hc : c.Held False A c)
    (hu : c.getField h i = .ok u) : u.isBoxed := by
  obtain ⟨r, name, hr, hx⟩ := getField_cases hu
  exact hh.entries r (hc.container hr rfl) _ (mem_of_lookup hx)

lemma Heap.isBoxed_binary {op} {left right} (hu : h.binary op left right = .ok u) :
    u.isBoxed = (left.isBoxed || right.isBoxed) := by
  obtain ⟨d, -, hu⟩ := exists_of_bind_eq_ok hu
  cases hu
  exact Value.isBoxed_wrap _ _

lemma Heap.isBoxed_unary {op} (hu : h.unary op v = .ok u) : u.isBoxed = v.isBoxed := by
  rcases unary_cases hu with ⟨x, rfl⟩ | ⟨x, rfl⟩ <;> exact Value.isBoxed_wrap _ _

end

/-! ### Machines in order -/

/-- The setting of one machine compared with itself. -/
def Setting.plain : Setting :=
  Setting.resting { Setting.boxing with loose := False }

/-- A value with which no container of the language comes along. -/
def Value.Free (v : Value) : Prop :=
  v.Hosted False (fun _ => False) v

/-- The same numbers and places, and native functions that are bound to free values. -/
def Likeness.free : Likeness where
  slots := Eq
  labels := Eq
  places := Eq
  bound := Value.Free

namespace Machine

variable {host : Host} {m : Machine} {U : List CompiledUnit}

/-- A machine in order: it is like itself, and so are the units that may be run on it. -/
structure InOrder (w : Likeness) (A : Container → Prop) (U : List CompiledUnit) (m : Machine) :
    Prop where
  free : Likeness.free.Le w
  akin : Akin .plain w A m m
  control : m.control.Like w False A m.control
  units : ∀ u ∈ U, u.program.body.Like w u.program.body

/-- A machine is in order, whichever containers are those of the language. -/
def Orderly (U : List CompiledUnit) (m : Machine) : Prop :=
  ∃ w A, m.InOrder w A U

variable {w : Likeness} {A : Container → Prop}

lemma InOrder.orderly_of_like (h : m.InOrder w A U) {n : Machine} (hn : n.Like .plain w A n) :
    n.Orderly U := by
  obtain ⟨w', B, hw, -, akin, control⟩ := hn
  exact ⟨w', B, h.free.trans hw, akin, control, fun u hu => (h.units u hu).mono hw⟩

lemma Orderly.held {v} (ho : m.Orderly U) (hc : m.control = .give v) : ∃ A, v.Held False A v := by
  obtain ⟨w, A, h⟩ := ho
  have like := h.control
  rw [hc] at like
  cases like with
  | give hv => exact ⟨A, hv⟩

/-- **A step keeps a machine in order.** -/
theorem Orderly.step (hh : host.Orderly) (h : m.Orderly U) :
    (m.step host).Orderly U := by
  obtain ⟨w, A, h⟩ := h
  rcases like_step hh.fair (.inr rfl) h.akin h.control fun _ => rfl with next | ⟨takes, foot, -⟩
  · exact h.orderly_of_like next
  · rw [step_of_nil foot takes]
    exact ⟨w, A, h⟩

lemma Orderly.startRun (h : m.Orderly U) {u} (hu : u ∈ U) (i) :
    (m.atRest.startRun i u.program).Orderly U := by
  obtain ⟨w, A, h⟩ := h
  have rest : Akin .plain w A m.atRest m.atRest :=
    { h.akin with collectors := rfl, stack := .foot ⟨rfl, rfl⟩ }
  exact h.orderly_of_like (like_startRun (rest.inRun i) rfl (h.units u hu))

lemma result_of_compile {source options linked u}
    (h : u ∈ (m.compile source options linked).1.toOption.toList) :
    (DynScript.compile source options m.registry linked m.supply).result = .ok u := by
  rw [Option.mem_toList, Machine.compile] at h
  generalize (DynScript.compile source options m.registry linked m.supply).result = r at h
  cases r with
  | error e => cases h
  | ok v =>
    cases h
    rfl

lemma Orderly.compile (h : m.Orderly U) (source options linked) :
    (m.compile source options linked).2.Orderly
      ((m.compile source options linked).1.toOption.toList ++ U) := by
  obtain ⟨w, A, h⟩ := h
  obtain ⟨-, slots, labels, places⟩ := h.akin.tied
  refine ⟨w, A, h.free, h.akin.relate (.refl w) rfl ⟨rfl, slots, labels, places⟩ _, h.control, ?_⟩
  intro u hu
  rcases mem_append.1 hu with hu | hu
  · exact like_self slots labels places h.akin.natives (result_of_compile hu)
  · exact h.units u hu

lemma Orderly.newInterpreter (h : m.Orderly U) (limit : Int) (relinks : Bool) :
    (m.newInterpreter limit relinks).2.Orderly U := by
  obtain ⟨w, A, h⟩ := h
  exact ⟨w, A, h.free, h.akin.newInterpreter limit relinks, h.control, h.units⟩

lemma Orderly.reset (h : m.Orderly U) (i) : (m.reset i).Orderly U := by
  obtain ⟨w, A, h⟩ := h
  have blank := h.akin.newFrame (.of_cells none .nil)
  exact ⟨w, A, h.free, blank.updateInterpreter i _, h.control, h.units⟩

/-! ### Registries and worlds from outside -/

/-- A registry and a world whose values bring no containers of the language along. -/
structure Foreign (registry : Registry) (world : World) : Prop where
  natives : registry.Allowed .free
  input : ∀ v, world.hooks.waitInput = some v → v.Free

lemma hosted_of_free {v : Value} (h : v.Free) : v.Hosted False A v :=
  h.mono fun _ => False.elim

lemma orderly_initial {registry world} (h : Foreign registry world) (supply) (limit : Int)
    (relinks : Bool) : (initial registry supply world limit relinks).Orderly [] := by
  have tied : Setting.plain.tied .free supply supply := ⟨rfl, rfl, rfl, rfl⟩
  have akin := akin_initial tied (fun _ => rfl) h.natives (fun _ hv => hv) h.input limit relinks
  exact ⟨.free, _, .refl _, akin, .give .nothing, forall_mem_nil _⟩

lemma Orderly.outside (h : m.Orderly U) {registry world} (hf : Foreign registry world) :
    ({ m with registry := registry, world := world } : Machine).Orderly U := by
  obtain ⟨w, A, h⟩ := h
  refine ⟨w, A, h.free, { h.akin with
    registry := rfl, world := rfl, natives := ?_, input := ?_ }, h.control, h.units⟩
  · exact fun name f found => (hf.natives name f found).mono h.free
  · exact fun v hv => hosted_of_free (hf.input v hv)

end Machine

end DynScript

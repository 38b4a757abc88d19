import DynScript.Proofs.Orderly
import DynScript.Proofs.Reparsing

/-!
# What lies beyond a border

Nothing is ever taken out of a store, so the sizes of its parts at some time draw a *border*: what was
there then lies on this side of it, what is made later beyond.
-/

namespace DynScript

/-! ### Code with functions of the standard library -/

/-- Whether a native function is one of the standard library. -/
def NativeFunction.isStandard (f : NativeFunction) : Bool :=
  match f.body with
  | .builtin _ => true
  | .host _ _ => false

/-- The functions of a registry are those of the standard library. -/
def Registry.Standard (natives : Registry) : Prop :=
  ∀ e ∈ natives.entries, e.2.isStandard

/-- Functions that are not of the standard library are replaced by one that is. -/
def Recoding.standard : Recoding where
  linked _ := 0
  slots := 0
  labels := 0
  natives f := if f.isStandard then f else Builtin.len.function

/-- An expression all of whose native functions are standard: recoding leaves it as it is. -/
def Expr.Standard (e : Expr) : Prop :=
  e.recode .standard = e

/-- An update all of whose native functions are standard. -/
def Update.Standard (u : Update) : Prop :=
  u.recode .standard = u

/-- A statement all of whose native functions are standard. -/
def Stmt.Standard (s : Stmt) : Prop :=
  s.recode .standard = s

/-- A block all of whose native functions are standard. -/
def Block.Standard (b : Block) : Prop :=
  b.recode .standard = b

section

variable {e e' c : Expr} {u : Update} {s : Stmt} {b : Block} {p : Location}

@[simp] lemma Slot.recode_standard (x : Slot) : x.recode .standard = x := by
  unfold Slot.recode
  split
  · rename_i h
    exact congrArg (fun id => { x with id := id }) h.symm
  · rfl

lemma isStandard_of_fixed {f} (h : Recoding.standard.natives f = f) : f.isStandard := by
  by_cases standard : f.isStandard = true
  · exact standard
  · have other : Recoding.standard.natives f = Builtin.len.function := if_neg standard
    rw [← h, other]
    rfl

lemma map_eq_self_iff {α : Type} {f : α → α} {l : List α} : l.map f = l ↔ ∀ a ∈ l, f a = a := by
  induction l with
  | nil => simp
  | cons a l ih => simp [ih]

lemma recodeAll_standard {l} : Expr.recodeAll .standard l = l ↔ ∀ e ∈ l, e.Standard := by
  rw [Expr.recodeAll_eq]
  exact map_eq_self_iff

lemma recodeFields_standard {l} : Expr.recodeFields .standard l = l ↔ ∀ f ∈ l, f.2.Standard := by
  rw [Expr.recodeFields_eq, map_eq_self_iff]
  simp [Prod.ext_iff, Expr.Standard]

lemma recodeStmts_standard {l} : Stmt.recodeAll .standard l = l ↔ ∀ s ∈ l, s.Standard := by
  rw [Stmt.recodeAll_eq]
  exact map_eq_self_iff

lemma recodeOption_standard {o} : Expr.recodeOption .standard o = o ↔ ∀ e ∈ o, e.Standard := by
  cases o <;> simp [Expr.recodeOption, Expr.Standard]

lemma recodeBranch_standard {o} : Stmt.recodeOption .standard o = o ↔ ∀ s ∈ o, s.Standard := by
  cases o <;> simp [Stmt.recodeOption, Stmt.Standard]

lemma Block.standard_iff {l slots} : (Block.mk l slots p).Standard ↔ ∀ s ∈ l, s.Standard := by
  simp [Block.Standard, Block.recode, recodeStmts_standard]

lemma Block.Standard.statements (h : b.Standard) : ∀ s ∈ b.statements, s.Standard := by
  cases b
  exact Block.standard_iff.1 h

end

/-! ### Compiled code -/

namespace Registry

variable {natives : Registry}

lemma standard_standard : Registry.standard.Standard := by
  intro e he
  obtain ⟨b, -, rfl⟩ := List.mem_map.1 he
  rfl

lemma Standard.lookup (h : natives.Standard) {name} {f} (hf : natives.lookup name = some f) :
    f.isStandard :=
  h _ (mem_of_lookup hf)

end Registry

/-- **Code compiled with the standard library names no other native functions.** -/
theorem standard_of_compile {source options} {natives : Registry} {supply} {u}
    (hn : natives.Standard) (hu : (compile source options natives [] supply).result = .ok u) :
    u.program.body.Standard := by
  let p := Parser.new (scan source options.file).tokens options natives
  -- The parse is its own recoding, and so is the unit that it gives.
  have fixed : (p.parse [] supply).1.recode .standard = (p.parse [] supply).1 :=
    (p.parse_recode (fun _ _ hf => if_pos (hn.lookup hf)) (by simp) supply (.inr fun _ => rfl)).symm
  have result := congrArg Compilation.result fixed
  simp only [compile] at hu
  change Except.map _ (p.parse [] supply).1.result = .ok u at hu
  generalize (p.parse [] supply).1 = c at hu result
  cases hc : c.result with
  | error e =>
    rw [hc] at hu
    cases hu
  | ok v =>
    rw [hc] at hu
    cases hu
    rw [Compilation.recode, hc] at result
    have unit : v.recode .standard = v := Except.ok.inj result
    exact congrArg (fun v : CompiledUnit => v.program.body) unit

/-! ### Values and functions -/

/-- How much of everything was there at some time. -/
structure Border where
  arrays : Nat
  records : Nat
  functions : Nat
  frames : Nat
  interpreters : Nat

section

variable (b : Border)

/-- A datum that refers to nothing on this side of the border. -/
def Datum.Beyond : Datum → Prop
  | .array r => b.arrays ≤ r
  | .record r => b.records ≤ r
  | .callable r => b.functions ≤ r
  | _ => True

/-- A value that refers to nothing on this side of the border. -/
def Value.Beyond : Value → Prop
  | .boxed d _ | .raw d => d.Beyond b
  | .alien (.tuple r) => b.arrays ≤ r
  | .alien (.function r _) => b.functions ≤ r
  | .alien (.integer _) | .alien (.object _) => True

/-- A function that refers to nothing on this side: one of a script was made in a frame and by an
interpreter beyond, a native one is of the standard library. -/
def Callable.Beyond : Callable → Prop
  | .closure c => b.frames ≤ c.frame ∧ b.interpreters ≤ c.owner ∧ c.code.body.Standard
  | .native f => f.isStandard

/-- A record that refers to nothing on this side of the border. -/
def Record.Beyond (r : Record) : Prop :=
  ∀ f ∈ r.fields, f.2.Beyond b

end

section

variable {b : Border} {d : Datum} {v : Value}

lemma Datum.beyond_of_isScalar (h : d.isScalar) : d.Beyond b := by
  cases d <;> trivial

lemma Value.beyond_wrap (dynamic : Bool) (h : d.Beyond b) : (Value.wrap dynamic d).Beyond b := by
  cases dynamic <;> exact h

lemma Value.beyond_null : Value.null.Beyond b := trivial

lemma Value.Beyond.unbox (h : v.Beyond b) : v.unbox.Beyond b := by
  cases v with
  | boxed d mark =>
    dsimp only [Value.unbox]
    split <;> exact h
  | raw d => exact h
  | alien a => exact h

lemma Value.Beyond.datum (h : v.Beyond b) (hd : v.datum? = some d) : d.Beyond b := by
  cases v with
  | boxed e mark =>
    cases hd
    exact h
  | raw e =>
    cases hd
    exact h
  | alien a =>
    cases a <;> cases hd
    trivial

lemma Record.Beyond.get? {r : Record} (h : r.Beyond b) {name} (hv : r.get? name = some v) :
    v.Beyond b :=
  h _ (mem_of_lookup hv)

lemma Record.Beyond.put {r : Record} (h : r.Beyond b) (name) (hv : v.Beyond b) :
    (r.put name v).Beyond b := by
  intro f hf
  rcases mem_put hf with hf | rfl
  · exact h f hf
  · exact hv

end

/-! ### Heaps -/

/-- A heap whose part on this side of the border is that of `old`, and whose part beyond refers to
nothing on this side. -/
structure Heap.Sealed (b : Border) (h old : Heap) : Prop where
  arrays_size : b.arrays ≤ h.arrays.size
  records_size : b.records ≤ h.records.size
  functions_size : b.functions ≤ h.functions.size
  oldArrays : ∀ r, r < b.arrays → h.array r = old.array r
  oldRecords : ∀ r, r < b.records → h.record r = old.record r
  oldFunctions : ∀ r, r < b.functions → h.function r = old.function r
  newArrays : ∀ r, b.arrays ≤ r → ∀ v ∈ h.array r, v.Beyond b
  newRecords : ∀ r, b.records ≤ r → (h.record r).Beyond b
  newFunctions : ∀ r, b.functions ≤ r → (h.function r).Beyond b

namespace Heap.Sealed

variable {b : Border} {old h : Heap} {v : Value} {r : Ref}

section

variable (hs : h.Sealed b old)
include hs

lemma newArray {items} (hi : ∀ v ∈ items, v.Beyond b) : (h.newArray items).2.Sealed b old :=
  { hs with
    arrays_size := by
      have := hs.arrays_size
      simp only [Heap.newArray, Array.size_push]
      omega
    oldArrays := fun r hr => by
      have new : r ≠ h.arrays.size := by have := hs.arrays_size; omega
      rw [array_newArray, if_neg new]
      exact hs.oldArrays r hr
    newArrays := fun r hr => by
      rw [array_newArray]
      split
      · exact hi
      · exact hs.newArrays r hr }

lemma newRecord {x : Record} (hx : x.Beyond b) : (h.newRecord x).2.Sealed b old :=
  { hs with
    records_size := by
      have := hs.records_size
      simp only [Heap.newRecord, Array.size_push]
      omega
    oldRecords := fun r hr => by
      have new : r ≠ h.records.size := by have := hs.records_size; omega
      rw [record_newRecord, if_neg new]
      exact hs.oldRecords r hr
    newRecords := fun r hr => by
      rw [record_newRecord]
      split
      · exact hx
      · exact hs.newRecords r hr }

lemma newFunction {c : Callable} (hc : c.Beyond b) : (h.newFunction c).2.Sealed b old :=
  { hs with
    functions_size := by
      have := hs.functions_size
      simp only [Heap.newFunction, Array.size_push]
      omega
    oldFunctions := fun r hr => by
      have new : r ≠ h.functions.size := by have := hs.functions_size; omega
      rw [function_newFunction, if_neg new]
      exact hs.oldFunctions r hr
    newFunctions := fun r hr => by
      rw [function_newFunction]
      split
      · exact hc
      · exact hs.newFunctions r hr }

lemma setItem (hr : b.arrays ≤ r) (i : Nat) (hv : v.Beyond b) : (h.setItem r i v).Sealed b old :=
  { hs with
    arrays_size := by simpa [Heap.setItem] using hs.arrays_size
    oldArrays := fun s hs' => by
      rw [array_setItem, if_neg (Nat.ne_of_lt (Nat.lt_of_lt_of_le hs' hr))]
      exact hs.oldArrays s hs'
    newArrays := fun s hs' => by
      rw [array_setItem]
      split
      · intro u hu
        rcases Array.mem_or_eq_of_mem_setIfInBounds hu with hu | rfl
        · exact hs.newArrays r hr u hu
        · exact hv
      · exact hs.newArrays s hs' }

lemma setField (hr : b.records ≤ r) (name) (hv : v.Beyond b) :
    (h.setField r name v).Sealed b old := by
  rcases Nat.lt_or_ge r h.records.size with there | absent
  · exact { hs with
      records_size := by simpa [Heap.setField] using hs.records_size
      oldRecords := fun s hs' => by
        rw [record_setField _ _ _ _ there, if_neg (Nat.ne_of_lt (Nat.lt_of_lt_of_le hs' hr))]
        exact hs.oldRecords s hs'
      newRecords := fun s hs' => by
        rw [record_setField _ _ _ _ there]
        split
        · exact (hs.newRecords r hr).put name hv
        · exact hs.newRecords s hs' }
  · -- There is no such record, so nothing is stored.
    have same : h.records.modify r (·.put name v) = h.records := by
      refine Array.ext_getElem? fun i => ?_
      rw [Array.getElem?_modify]
      split
      · subst i
        rw [Array.getElem?_eq_none absent]
        rfl
      · rfl
    rw [Heap.setField, same]
    exact hs

end

end Heap.Sealed

/-! ### Operations on the heap -/

/-- An operation that keeps a heap sealed, and whose results are as `Q` says. -/
abbrev HeapM.Seals {α : Type} (b : Border) (old : Heap) (x : HeapM α) (Q : α → Prop) : Prop :=
  x.Keeping (·.Sealed b old) Q

namespace HeapM.Seals

variable {b : Border} {old : Heap}

lemma makeArray {items} (hi : ∀ v ∈ items, v.Beyond b) :
    Seals b old (HeapM.make (·.newArray items)) (b.arrays ≤ ·) :=
  .make fun _ hs => ⟨hs.newArray hi, hs.arrays_size⟩

lemma makeRecord {x : Record} (hx : x.Beyond b) :
    Seals b old (HeapM.make (·.newRecord x)) (b.records ≤ ·) :=
  .make fun _ hs => ⟨hs.newRecord hx, hs.records_size⟩

lemma makeFunction {c : Callable} (hc : c.Beyond b) :
    Seals b old (HeapM.make (·.newFunction c)) (b.functions ≤ ·) :=
  .make fun _ hs => ⟨hs.newFunction hc, hs.functions_size⟩

end HeapM.Seals

/-! ### Conversion -/

/-- A host value that is all data in the heap `h`: a scalar, or a container of the host that holds
nothing but such values. -/
inductive Value.Plain (h : Heap) : Value → Prop where
  | boxed {d : Datum} (hd : d.isScalar) (mark : Nat) : Plain h (.boxed d mark)
  | raw {d : Datum} (hd : d.isScalar) : Plain h (.raw d)
  | integer (n : Int) : Plain h (.alien (.integer n))
  | object (type : String) : Plain h (.alien (.object type))
  | array {r} (hi : ∀ v ∈ h.array r, Plain h v) : Plain h (.raw (.array r))
  | tuple {r} (hi : ∀ v ∈ h.array r, Plain h v) : Plain h (.alien (.tuple r))
  | record {r} (hf : ∀ f ∈ (h.record r).fields, Plain h f.2) : Plain h (.raw (.record r))

/-- A value whose conversion lies beyond the border: it lies there itself, or it is plain. -/
def Value.Clear (b : Border) (old : Heap) (v : Value) : Prop :=
  v.Beyond b ∨ v.Plain old

/-- All that a container holds is clear. -/
def Container.Clear (b : Border) (old h : Heap) : Container → Prop
  | .array r => ∀ v ∈ h.array r, v.Clear b old
  | .record r => ∀ f ∈ (h.record r).fields, f.2.Clear b old

section

variable {b : Border} {old h : Heap} {v : Value}

lemma clear_items (hs : h.Sealed b old) {r} (hr : b.arrays ≤ r ∨ ∀ v ∈ old.array r, v.Plain old) :
    ∀ v ∈ h.array r, v.Clear b old := by
  intro v hv
  rcases Nat.lt_or_ge r b.arrays with before | beyond
  · rcases hr with hr | hr
    · omega
    · rw [hs.oldArrays r before] at hv
      exact .inr (hr v hv)
  · exact .inl (hs.newArrays r beyond v hv)

lemma clear_fields (hs : h.Sealed b old) {r}
    (hr : b.records ≤ r ∨ ∀ f ∈ (old.record r).fields, f.2.Plain old) :
    ∀ f ∈ (h.record r).fields, f.2.Clear b old := by
  intro f hf
  rcases Nat.lt_or_ge r b.records with before | beyond
  · rcases hr with hr | hr
    · omega
    · rw [hs.oldRecords r before] at hf
      exact .inr (hr f hf)
  · exact .inl (hs.newRecords r beyond f hf)

lemma seals_copied {part : Value → HeapM Value}
    (hp : ∀ v, v.Clear b old → (part v).Seals b old (·.Beyond b)) (c : Container)
    (hc : ∀ h, h.Sealed b old → c.Clear b old h) :
    (HeapM.copied part c).Seals b old (·.Beyond b) := by
  cases c with
  | array r =>
    refine .get fun h hs => ?_
    refine (HeapM.Keeping.mapM fun v hv => hp v (hc h hs v (by simpa using hv))).bind fun l hl => ?_
    exact (HeapM.Seals.makeArray (by simpa using hl)).bind fun _ hr => .pure hr
  | record r =>
    refine .get fun h hs => ?_
    have copy (f : Key × Value) (hf : f ∈ (h.record r).fields) :
        HeapM.Seals b old (HeapM.copiedField part f) fun g : Key × Value => g.2.Beyond b := by
      unfold HeapM.copiedField
      split
      · exact (hp f.2 (hc h hs f hf)).bind fun v hv => .pure (Q := fun g : Key × Value => g.2.Beyond b) hv
      · exact .throw _
    refine (HeapM.Keeping.mapM copy).bind fun l hl => ?_
    exact (HeapM.Seals.makeRecord hl).bind fun _ hr => .pure hr

lemma Value.Clear.beyond (hv : v.Clear b old) {d} (hd : v.datum? = some d)
    (hc : v.isBoxed ∨ d.container? = none) : d.Beyond b := by
  rcases hv with hv | hv
  · exact hv.datum hd
  · cases hv with
    | boxed scalar _ | raw scalar =>
      cases hd
      exact Datum.beyond_of_isScalar scalar
    | integer n =>
      cases hd
      trivial
    | object type | tuple _ => cases hd
    | array _ | record _ =>
      cases hd
      rcases hc with hc | hc <;> cases hc

lemma Value.Clear.container {d} (hv : (Value.raw d).Clear b old) {c} (hd : d.container? = some c)
    (hs : h.Sealed b old) : c.Clear b old h := by
  cases d with
  | array r =>
    cases hd
    refine clear_items hs (hv.imp id fun plain => ?_)
    cases plain with
    | raw scalar => cases scalar
    | array hi => exact hi
  | record r =>
    cases hd
    refine clear_fields hs (hv.imp id fun plain => ?_)
    cases plain with
    | raw scalar => cases scalar
    | record hf => exact hf
  | null | bool _ | number _ | string _ | callable _ => cases hd

lemma seals_convertWith {copy : Container → HeapM Value}
    (hc : ∀ c : Container, (∀ h, h.Sealed b old → c.Clear b old h) →
      (copy c).Seals b old (·.Beyond b)) (hv : v.Clear b old) :
    (v.convertWith copy).Seals b old (·.Beyond b) := by
  cases v with
  | boxed d mark => exact .pure (hv.beyond rfl (.inl rfl) : d.Beyond b)
  | raw d =>
    unfold Value.convertWith
    dsimp only
    split
    · exact .pure (hv.beyond rfl (.inr ‹_›) : d.Beyond b)
    · exact hc _ fun h hs => hv.container ‹_› hs
  | alien a =>
    cases a with
    | integer n =>
      unfold Value.convertWith
      dsimp only
      split
      · exact .pure trivial
      · exact .throw _
    | tuple r =>
      refine hc _ fun h hs => clear_items hs (hv.imp id fun plain => ?_)
      cases plain with
      | tuple hi => exact hi
    | function r type =>
      have beyond : b.functions ≤ r := by
        rcases hv with hv | hv
        · exact hv
        · cases hv
      refine HeapM.Keeping.bind (Q := (b.functions ≤ ·)) (.make fun h hs => ?_) fun _ hr => .pure hr
      exact ⟨hs.newFunction (hs.newFunctions r beyond), hs.functions_size⟩
    | object type => exact .throw _

/-- **Conversion makes what lies beyond the border.** -/
theorem seals_convert (hv : v.Clear b old) : v.convert.Seals b old (·.Beyond b) := by
  have within (depth : Nat) : ∀ v : Value, v.Clear b old →
      (v.convertWithin depth).Seals b old (·.Beyond b) := by
    induction depth with
    | zero => exact fun v hv => seals_convertWith (fun _ _ => .throw _) hv
    | succ depth ih =>
      refine fun v hv => seals_convertWith (fun c hc => ?_) hv
      exact (seals_copied ih c hc).bind fun d hd => .pure hd
  exact .get fun h _ => within _ v hv

lemma seals_convert_all {l : List Value} (hl : ∀ v ∈ l, v.Beyond b) :
    (l.mapM Value.convert).Seals b old fun l => ∀ v ∈ l, v.Beyond b :=
  .mapM fun v hv => seals_convert (.inl (hl v hv))

/-! ### Items and fields -/

lemma beyond_getIndex (hs : h.Sealed b old) {i u} (hv : v.Beyond b) (hu : v.getIndex h i = .ok u) :
    u.Beyond b := by
  rcases Value.getIndex_cases hu with ⟨r, hr, rfl | hx⟩ | ⟨s, rfl⟩
  · trivial
  · exact hs.newArrays r (hv.datum hr) u hx
  · exact Value.beyond_wrap _ trivial

lemma beyond_getField (hs : h.Sealed b old) {i u} (hv : v.Beyond b) (hu : v.getField h i = .ok u) :
    u.Beyond b := by
  obtain ⟨r, name, hr, hx⟩ := Value.getField_cases hu
  exact (hs.newRecords r (hv.datum hr)).get? hx

lemma seals_setIndex {c i : Value} (hc : c.Beyond b) (hv : v.Beyond b) :
    (c.setIndex i v).Seals b old (·.Beyond b) := by
  refine (HeapM.Keeping.look (Q := fun _ => True) fun _ _ _ _ => trivial).bind fun kind _ => ?_
  split
  · rename_i r hr
    refine (seals_convert (.inl hv)).bind fun u hu => ?_
    refine (HeapM.Keeping.look (Q := fun _ => True) fun _ _ _ _ => trivial).bind fun n _ => ?_
    exact (HeapM.Keeping.modifying fun _ hs => hs.setItem (hc.datum hr) n hu).bind fun _ _ => .pure hu
  · exact .throw _
  · exact .throw _

lemma seals_setField {c i : Value} (hc : c.Beyond b) (hv : v.Beyond b) :
    (c.setField i v).Seals b old (·.Beyond b) := by
  refine (HeapM.Keeping.look (Q := fun _ => True) fun _ _ _ _ => trivial).bind fun kind _ => ?_
  refine (HeapM.Keeping.look (Q := fun _ => True) fun _ _ _ _ => trivial).bind fun name _ => ?_
  split
  · rename_i r hr
    refine (seals_convert (.inl hv)).bind fun u hu => ?_
    exact (HeapM.Keeping.modifying fun _ hs => hs.setField (hc.datum hr) name hu).bind
      fun _ _ => .pure hu
  · exact .throw _

/-! ### Operators -/

lemma beyond_binary {op} {left right u} (hu : h.binary op left right = .ok u) : u.Beyond b := by
  obtain ⟨d, hd, hu⟩ := exists_of_bind_eq_ok hu
  cases hu
  exact Value.beyond_wrap _ (Datum.beyond_of_isScalar (Heap.isScalar_binaryDatum hd))

lemma beyond_unary {op} {u} (hu : h.unary op v = .ok u) : u.Beyond b := by
  rcases Heap.unary_cases hu with ⟨x, rfl⟩ | ⟨x, rfl⟩ <;> exact Value.beyond_wrap _ trivial

end

end DynScript

import DynScript.Proofs.Faults

/-!
# What functions of the standard library come to

A function of the standard library is over in one step, unless it is the one that runs a text.  It may
warn and change the world around the machine.
-/

namespace DynScript

open List

lemma Callable.mem_of_mem_accepted {α : Type} {c : Callable} {l} {a : α} (h : a ∈ c.accepted l) :
    a ∈ l := by
  unfold accepted at h
  split at h
  · exact h
  · split at h <;> exact mem_of_mem_take h

namespace Machine

lemma warn_induct {P : Machine → Prop} {m : Machine} (w : Warning)
    (sent : P (m.onWorld (·.send [⟨.warning, .machine, w.text⟩])))
    (told : ∀ n r, P n →
      P (n.updateInterpreter r fun i => { i with warnings := i.warnings.push w.text })) :
    P (m.warn w) :=
  List.foldlRecOn _ _ sent fun n hn r _ => told n r hn

/-- The values that a new array may hold: arguments, items of arrays among them, and texts. -/
inductive Supplied (arguments : List Value) (h : Heap) : Value → Prop where
  | argument {v} (hv : v ∈ arguments) : Supplied arguments h v
  | item {a v : Value} {r} (ha : a ∈ arguments) (hr : a.datum? = some (.array r))
    (hv : v ∈ h.array r) : Supplied arguments h v
  | text (s : String) : Supplied arguments h (.boxed (.string s))

/-- The machine warns and changes the world, apart from log and hooks, and then concludes: with a
scalar, a new array, input, or an error. -/
inductive Concludes (arguments : List Value) (place : Option Location) : Machine → Machine → Prop where
  | datum (m : Machine) {d : Datum} (hd : d.isScalar) : Concludes arguments place m (m.giveDatum d)
  | array (m : Machine) {items} (hi : ∀ v ∈ items, Supplied arguments m.heap v) :
    Concludes arguments place m (m.giveArray items)
  | input (m : Machine) {v : Value} (hv : m.world.hooks.waitInput = some v) :
    Concludes arguments place m (m.onHeap v.convert place fun m v => m.give v)
  | raise (m : Machine) {f : Fault} (hf : f.Ordinary) : Concludes arguments place m (m.raise f place)
  | warn {m n : Machine} (w : Warning) (h : Concludes arguments place (m.warn w) n) :
    Concludes arguments place m n
  | world {m n : Machine} {w : World} (hl : w.log = m.world.log) (hh : w.hooks = m.world.hooks)
    (h : Concludes arguments place { m with world := w } n) : Concludes arguments place m n

namespace Concludes

variable {arguments : List Value} {place : Option Location} {m : Machine}

lemma warned (w) {d : Datum} (hd : d.isScalar) :
    Concludes arguments place m ((m.warn w).giveDatum d) :=
  .warn w (.datum _ hd)

lemma changed {f : World → World} (hl : (f m.world).log = m.world.log)
    (hh : (f m.world).hooks = m.world.hooks) :
    Concludes arguments place m ((m.onWorld f).give .null) :=
  .world (w := f m.world) hl hh (.datum _ (d := .null) rfl)

variable {next : Machine → String → Machine}

lemma withText (v) (hn : ∀ s, Concludes arguments place m (next m s)) :
    Concludes arguments place m (m.withText v place next) := by
  unfold Machine.withText
  split
  · exact hn _
  · exact .raise m (m.heap.decent_text v _ ‹_›)

lemma concat {left right} (hl : left ∈ arguments) (hr : right ∈ arguments) :
    Concludes arguments place m (m.concat left right) := by
  unfold Machine.concat
  split
  · rename_i a ha
    split
    · rename_i b hb
      refine .array m fun v hv => ?_
      exact (Array.mem_append.1 hv).elim (.item hl ha) (.item hr hb)
    · refine .array m fun v hv => ?_
      rcases Array.mem_push.1 hv with hv | rfl
      · exact .item hl ha hv
      · exact .argument hr
  · exact warned _ rfl

lemma lengthOf (v) : Concludes arguments place m (m.lengthOf v place) := by
  unfold Machine.lengthOf
  split
  · exact .raise m (f := .nullLength) trivial
  · exact .datum m rfl
  · exact .datum m rfl
  · exact .datum m rfl
  · exact warned _ rfl

lemma readFile (b path) {d : Datum} (hd : d.isScalar)
    (hn : ∀ s, Concludes arguments place m (next m s)) :
    Concludes arguments place m (m.readFile b path d next) := by
  unfold Machine.readFile
  split
  · exact warned _ hd
  · split
    · exact hn _
    · exact warned _ hd

lemma writeFile (b path content) : Concludes arguments place m (m.writeFile b path content) := by
  unfold Machine.writeFile
  split
  · exact changed rfl rfl
  · exact warned _ rfl

lemma writeTo (b path) {next : String → Machine} (hn : ∀ s, Concludes arguments place m (next s)) :
    Concludes arguments place m (m.writeTo b path next) := by
  unfold Machine.writeTo
  split
  · exact warned _ rfl
  · exact hn _

lemma withInteger (b argument v) {next : Machine → Int → Machine}
    (hn : ∀ n, Concludes arguments place m (next m n)) :
    Concludes arguments place m (m.withInteger b argument v next) := by
  unfold Machine.withInteger
  split
  · exact warned _ rfl
  · split
    · exact hn _
    · exact warned _ rfl

lemma drawBetween (lower upper : Int) :
    Concludes arguments place m (m.drawBetween lower upper) :=
  .world (w := m.world.draw.2) rfl rfl (.datum _ rfl)

lemma push (b) (installed : Bool) (event : String → Event) (v) :
    Concludes arguments place m (m.push b installed event v place) := by
  unfold Machine.push
  split
  · exact withText v fun _ => .changed rfl rfl
  · exact warned _ rfl

end Concludes

lemma getD_mem (arguments : List Value) (i : Nat) :
    arguments.getD i .null ∈ .null :: arguments := by
  rw [getD_eq_getElem?_getD]
  cases found : arguments[i]? with
  | none => exact mem_cons_self
  | some v => exact mem_cons_of_mem _ (mem_of_getElem? found)

/-- **Every function of the standard library concludes**, except for the one that runs a text. -/
theorem concludes_callBuiltin (m) {b} (hb : b ≠ .evaluate) (arguments place) :
    Concludes (.null :: arguments) place m (m.callBuiltin b arguments place) := by
  unfold callBuiltin
  cases b with
  | evaluate => exact absurd rfl hb
  | concat => exact .concat (getD_mem arguments 0) (getD_mem arguments 1)
  | len => exact .lengthOf _
  | toText => exact .withText _ fun _ => .datum m rfl
  | debugLog | debugLogLine => exact .withText _ fun _ => .changed rfl rfl
  | debugReadLine => exact .world (w := m.world.readLine.2) rfl rfl (.datum _ rfl)
  | random => exact .world (w := m.world.draw.2) rfl rfl (.datum _ rfl)
  | ticks => exact .world (w := m.world.tick.2) rfl rfl (.datum _ rfl)
  | fileReadAllText => exact .readFile _ _ rfl fun _ => .datum m rfl
  | fileReadAllLines =>
    refine .readFile _ _ rfl fun s => .array m fun v hv => ?_
    obtain ⟨l, -, rfl⟩ := mem_map.1 (mem_toArray.1 hv)
    exact .text l
  | fileWriteAllText =>
    refine .writeTo _ _ fun path => ?_
    split
    · exact .warned _ rfl
    · exact .writeFile _ _ _
  | fileWriteAllLines =>
    refine .writeTo _ _ fun path => ?_
    split
    · split
      · exact .writeFile _ _ _
      · exact .raise m (decent_linesOf _ _ _ ‹_›)
    · exact .warned _ rfl
  | randomInt =>
    refine .withInteger _ _ _ fun upper => ?_
    split
    · exact .warned _ rfl
    · exact .drawBetween _ _
  | randomRange =>
    refine .withInteger _ _ _ fun lower => .withInteger _ _ _ fun upper => ?_
    split
    · exact .datum m rfl
    · split
      · exact .warned _ rfl
      · exact .drawBetween _ _
  | warning => exact .withText _ fun _ => .warned _ rfl
  | pushLine | pushFormatLine => exact .push _ _ _ _
  | waitInput =>
    dsimp only
    split
    · exact .warned _ rfl
    · exact .input m ‹_›
  | clearView =>
    dsimp only
    split
    · exact .changed rfl rfl
    · exact .warned _ rfl

end Machine

end DynScript

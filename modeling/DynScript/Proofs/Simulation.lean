import DynScript.Proofs.MachineLikeness

/-!
# Like machines take like steps

One lemma for each function that a step is made of, saying that it leads from machines that are akin
to machines that are alike; together they make up `Machine.like_step`.
-/

namespace DynScript

open List Value

/-! ### The application -/

lemma RuntimeError.Like.withLocation {w} {e e' : RuntimeError} (he : e.Like w e') {q q'}
    (hq : Option.Rel w.places q q') : (e.withLocation q).Like w (e'.withLocation q') := by
  obtain ⟨fault, place, help⟩ := e
  obtain ⟨fault', place', help'⟩ := e'
  obtain ⟨rfl, rfl, hp⟩ := he
  cases hp with
  | none => exact ⟨rfl, rfl, hq⟩
  | some hp => exact ⟨rfl, rfl, .some hp⟩

/-- Like answers of the host. -/
inductive HostAnswer.Like (w : Likeness) (l : Prop) (A : Container → Prop) :
    HostAnswer → HostAnswer → Prop where
  | value {v v' : Value} (h : v.Hosted l A v') : HostAnswer.Like w l A (.value v) (.value v')
  | error {e e' : RuntimeError} (h : e.Like w e') : HostAnswer.Like w l A (.error e) (.error e')
  | invoke {f f' : Value} {vs vs'} (hf : f.Hosted l A f')
    (hv : Forall₂ (Value.Hosted l A) vs vs') :
    HostAnswer.Like w l A (.invoke f vs) (.invoke f' vs')

/-- The functions of the application treat like arguments alike: they can tell neither the numbers
in code nor, when the likeness is loose, the marks of scalars. -/
def Host.Uniform (l : Prop) (host : Host) : Prop :=
  ∀ (w : Likeness) (A : Container → Prop) (h h' : Heap), h.Like w l A h' →
    ∀ (symbol : String) (bound : List Value), (∀ v ∈ bound, v.Hosted l A v) →
    ∀ vs vs' : List Value, Forall₂ (Value.Boxed l A) vs vs' →
    ∃ B, A ≤ B ∧ (host.call symbol bound vs h).1.Like w l B (host.call symbol bound vs' h').1 ∧
      (host.call symbol bound vs h).2.Like w l B (host.call symbol bound vs' h').2

/-- The functions of the application do so at least when they are called with the very same arguments
in the very same heap, if `twin` holds, and else always. -/
def Host.Fair (l twin : Prop) (host : Host) : Prop :=
  ∀ (w : Likeness) (A : Container → Prop) (h h' : Heap), h.Like w l A h' →
    ∀ (symbol : String) (bound : List Value), (∀ v ∈ bound, v.Hosted l A v) →
    ∀ vs vs' : List Value, Forall₂ (Value.Boxed l A) vs vs' → (twin → h = h' ∧ vs = vs') →
    ∃ B, A ≤ B ∧ (host.call symbol bound vs h).1.Like w l B (host.call symbol bound vs' h').1 ∧
      (host.call symbol bound vs h).2.Like w l B (host.call symbol bound vs' h').2

lemma Host.Uniform.fair {l : Prop} {host : Host} (h : host.Uniform l) (twin : Prop) :
    host.Fair l twin :=
  fun w A k k' hk symbol bound hb vs vs' hv _ => h w A k k' hk symbol bound hb vs vs' hv

namespace Machine

variable {S : Setting} {w w' : Likeness} {A B : Container → Prop} {m m' : Machine} {v v' : Value}
  {p p' : Location} {q q' : Option Location}

/-! ### Control -/

section

variable (h : Akin S w A m m')
include h

lemma like_give (hv : v.Held S.loose A v') :
    (m.give v).Like S w A (m'.give v') :=
  h.go (.give hv)

lemma like_nothing : (m.give .nothing).Like S w A (m'.give .nothing) :=
  like_give h .nothing

lemma like_null : (m.give .null).Like S w A (m'.give .null) :=
  like_give h (.boxed .null)

lemma like_giveDatum {d : Datum}
    (hd : ∀ c, d.container? = some c → A c) : (m.giveDatum d).Like S w A (m'.giveDatum d) :=
  like_give h (.boxed (.mk d (.inr rfl) hd))

lemma like_giveInteger (n : Int) :
    (m.giveInteger n).Like S w A (m'.giveInteger n) :=
  like_giveDatum h nofun

lemma like_raise (f) (hq : Option.Rel w.places q q') :
    (m.raise f q).Like S w A (m'.raise f q') :=
  h.go (.raise ⟨rfl, rfl, hq⟩)

end

variable {k k' : Pending} {vs vs' : List Value} {l : Prop} {exit exit' t t' : Label}

lemma like_eval (h : Akin S w A m m') {e e' : Expr} (he : e.Like w e') (frame)
    (hk : k.Like w S.loose A k') : (m.eval e frame k).Like S w A (m'.eval e' frame k') :=
  (h.pend hk).go (.eval frame he)

lemma like_exec (h : Akin S w A m m') {s s' : Stmt} (hs : s.Like w s') (frame)
    (hk : k.Like w S.loose A k') : (m.exec s frame k).Like S w A (m'.exec s' frame k') :=
  (h.pend hk).go (.exec frame hs)

lemma like_look (h : Akin S w A m m') {f g : Heap → Except Fault Value}
    (hf : LikeAnswer (Value.Held S.loose A) (f m.heap) (g m'.heap)) (hp : w.places p p') :
    (m.look f p).Like S w A (m'.look g p') := by
  unfold look
  generalize f m.heap = x at hf
  generalize g m'.heap = y at hf
  cases hf with
  | ok hv => exact like_give h hv
  | error e => exact like_raise h e (.some hp)

lemma like_onHeap_of_ok {α β : Type} {R : (Container → Prop) → α → β → Prop} (h : Akin S w A m m')
    {f g} (hf : HeapM.Like w S.loose R A f g) (hq : Option.Rel w.places q q')
    {next : Machine → α → Machine} {next' : Machine → β → Machine}
    (hn : ∀ B, A ≤ B → ∀ k k' a b, f m.heap = .ok a k → g m'.heap = .ok b k' →
      Akin S w B { m with heap := k } { m' with heap := k' } → R B a b →
      (next { m with heap := k } a).Like S w B (next' { m' with heap := k' } b)) :
    (m.onHeap f q next).Like S w A (m'.onHeap g q' next') := by
  have hr := hf A le_rfl m.heap m'.heap h.heap
  rw [onHeap_eq, onHeap_eq]
  generalize ef : f m.heap = r at hr
  generalize eg : g m'.heap = r' at hr
  cases hr with
  | ok hB hk hab =>
    exact (hn _ hB _ _ _ _ ef eg (h.setHeap hB hk) hab).widen (.refl w) hB
  | error hB hk e => exact (like_raise (h.setHeap hB hk) e hq).widen (.refl w) hB

section

variable (h : Akin S w A m m')
include h

lemma like_onHeap {α β : Type} {R : (Container → Prop) → α → β → Prop} {f g}
    (hf : HeapM.Like w S.loose R A f g) (hq : Option.Rel w.places q q')
    {next : Machine → α → Machine} {next' : Machine → β → Machine}
    (hn : ∀ B, A ≤ B → ∀ k k', Akin S w B k k' → ∀ a b, R B a b →
      (next k a).Like S w B (next' k' b)) :
    (m.onHeap f q next).Like S w A (m'.onHeap g q' next') :=
  like_onHeap_of_ok h hf hq fun B hB _ _ a b _ _ hk hab => hn B hB _ _ hk a b hab

lemma like_giveConverted (hv : v.Passed S.loose A v')
    (hq : Option.Rel w.places q q') :
    (m.onHeap v.convert q fun m v => m.give v).Like S w A
      (m'.onHeap v'.convert q' fun m v => m.give v) :=
  like_onHeap h (HeapM.like_convert hv) hq fun _ _ _ _ hk _ _ hu => like_give hk (.boxed hu)

lemma like_giveArray {vs vs' : Array Value}
    (hv : Forall₂ (Value.Boxed S.loose A) vs.toList vs'.toList) :
    (m.giveArray vs).Like S w A (m'.giveArray vs') := by
  refine like_onHeap h (HeapM.like_newArray hv) .none fun B _ k k' hk r r' hr => ?_
  obtain ⟨rfl, hr⟩ := hr
  exact like_giveDatum hk fun c hc => by cases hc; exact hr

lemma like_withText (hv : v.payload = v'.payload)
    (hq : Option.Rel w.places q q') {next next' : Machine → String → Machine}
    (hn : ∀ s, (next m s).Like S w A (next' m' s)) :
    (m.withText v q next).Like S w A (m'.withText v' q' next') := by
  unfold withText
  rw [Heap.text_eq h.heap.agrees hv]
  split
  · exact hn _
  · exact like_raise h _ hq

end

/-! ### The world and interpreters -/

namespace Akin

section

variable (h : Akin S w A m m')
include h

lemma onWorld {f : World → World}
    (hf : ∀ x : World, (f x).hooks = x.hooks) : Akin S w A (m.onWorld f) (m'.onWorld f) :=
  { h with
    world := congrArg f h.world
    input := fun v hv => h.input v (by rwa [Machine.onWorld, hf] at hv) }

lemma updateInterpreter (r) (f : Interpreter → Interpreter) :
    Akin S w A (m.updateInterpreter r f) (m'.updateInterpreter r f) :=
  { h with interpreters := congrArg (·.modify r f) h.interpreters }

lemma warn (x) : Akin S w A (m.warn x) (m'.warn x) := by
  have collect (refs : List Ref) : ∀ {n n' : Machine}, Akin S w A n n' →
      Akin S w A
        (refs.foldl (fun m r => m.updateInterpreter r fun i =>
          { i with warnings := i.warnings.push x.text }) n)
        (refs.foldl (fun m r => m.updateInterpreter r fun i =>
          { i with warnings := i.warnings.push x.text }) n') := by
    induction refs with
    | nil => exact id
    | cons r refs ih => exact fun hn => ih (hn.updateInterpreter r _)
  have sent := h.onWorld (f := (·.send [⟨.warning, .machine, x.text⟩])) fun _ => rfl
  unfold Machine.warn
  dsimp only
  rw [← sent.collectors]
  exact collect _ sent

lemma interpreter (r) : m.interpreter r = m'.interpreter r := by
  unfold Machine.interpreter
  rw [h.interpreters]

end

end Akin

lemma like_fromWorld {α : Type} (h : Akin S w A m m') (f : World → α × World)
    (hf : ∀ x : World, (f x).2.hooks = x.hooks) (next : Machine → α → Machine)
    (hn : ∀ k k', Akin S w A k k' → ∀ a, (next k a).Like S w A (next k' a)) :
    (next (m.fromWorld f).2 (m.fromWorld f).1).Like S w A
      (next (m'.fromWorld f).2 (m'.fromWorld f).1) := by
  have same : (m.fromWorld f).1 = (m'.fromWorld f).1 := by
    simp only [fromWorld, h.world]
  rw [← same]
  refine hn _ _ ?_ _
  exact { h with
    world := by simp only [fromWorld, h.world]
    input := fun v hv => h.input v (by rwa [fromWorld, hf] at hv) }

/-! ### The standard library -/

lemma kindOf_eq (h : v.payload = v'.payload) : kindOf v = kindOf v' := by
  unfold kindOf
  rw [datum?_eq h]

section

variable (h : Akin S w A m m')
include h

lemma Akin.items {r} (hr : A (.array r)) :
    Forall₂ (Value.Boxed S.loose A) (m.heap.array r).toList (m'.heap.array r).toList :=
  forall₂_of_mem (h.heap.arrays r) fun v hv _ k => k.of_isBoxed (h.heap.items r hr v hv)

lemma like_concat {u u' : Value} (hv : v.Boxed S.loose A v')
    (hu : u.Boxed S.loose A u') : (m.concat v u).Like S w A (m'.concat v' u') := by
  unfold concat
  rw [← datum?_eq hv.payload, ← datum?_eq hu.payload, ← kindOf_eq hv.payload]
  split
  · rename_i a ha
    have left := h.items ((Value.Held.boxed hv).container ha rfl)
    split
    · rename_i b hb
      have right := h.items ((Value.Held.boxed hu).container hb rfl)
      refine like_giveArray h ?_
      rw [Array.toList_append, Array.toList_append]
      exact rel_append left right
    · refine like_giveArray h ?_
      rw [Array.toList_push, Array.toList_push]
      exact rel_append left (.cons hu .nil)
  · exact like_null (h.warn _)

lemma like_lengthOf (hv : v.Boxed S.loose A v')
    (hq : Option.Rel w.places q q') : (m.lengthOf v q).Like S w A (m'.lengthOf v' q') := by
  unfold lengthOf
  rw [← datum?_eq hv.payload, ← kindOf_eq hv.payload]
  split
  · exact like_raise h _ hq
  · rw [h.heap.agrees.size]
    exact like_giveInteger h _
  · exact like_giveInteger h _
  · rename_i r _
    have size : (m.heap.record r).size = (m'.heap.record r).size := by
      rw [Record.size, Record.size, (h.heap.fields r).length_eq]
    rw [size]
    exact like_giveInteger h _
  · exact like_giveInteger (h.warn _) _

lemma like_readFile (b) (hv : v.Boxed S.loose A v') {d : Datum} (hd : d.container? = none)
    {next next' : Machine → String → Machine} (hn : ∀ s, (next m s).Like S w A (next' m' s)) :
    (m.readFile b v d next).Like S w A (m'.readFile b v' d next') := by
  have default {k k' : Machine} (hk : Akin S w A k k') :
      (k.giveDatum d).Like S w A (k'.giveDatum d) :=
    like_giveDatum hk fun c hc => by rw [hd] at hc; cases hc
  unfold readFile
  rw [← string?_eq hv.payload, ← kindOf_eq hv.payload, ← h.world]
  split
  · exact default (h.warn _)
  · split
    · exact hn _
    · exact default (h.warn _)

lemma like_writeFile (b path content) :
    (m.writeFile b path content).Like S w A (m'.writeFile b path content) := by
  unfold writeFile
  rw [← h.world]
  split
  · rename_i files _
    exact like_null (h.onWorld (f := fun x => { x with files := files }) fun _ => rfl)
  · exact like_null (h.warn _)

lemma like_writeTo (b) (hv : v.Boxed S.loose A v') {next next' : String → Machine}
    (hn : ∀ s, (next s).Like S w A (next' s)) :
    (m.writeTo b v next).Like S w A (m'.writeTo b v' next') := by
  unfold writeTo
  rw [← string?_eq hv.payload, ← kindOf_eq hv.payload]
  split
  · exact like_null (h.warn _)
  · exact hn _

lemma like_withInteger (b argument) (hv : v.Boxed S.loose A v')
    {next next' : Machine → Int → Machine} (hn : ∀ n, (next m n).Like S w A (next' m' n)) :
    (m.withInteger b argument v next).Like S w A (m'.withInteger b argument v' next') := by
  unfold withInteger
  rw [← number?_eq hv.payload, ← kindOf_eq hv.payload]
  split
  · exact like_giveInteger (h.warn _) _
  · split
    · exact hn _
    · exact like_giveInteger (h.warn _) _

lemma like_drawBetween (lower upper : Int) :
    (m.drawBetween lower upper).Like S w A (m'.drawBetween lower upper) :=
  like_fromWorld h World.draw (fun _ => rfl)
    (fun m k => m.giveInteger (lower + (k : Int) % (upper - lower)))
    fun _ _ hk _ => like_giveInteger hk _

lemma like_randomInt (hv : v.Boxed S.loose A v') :
    (m.randomInt v).Like S w A (m'.randomInt v') := by
  refine like_withInteger h _ _ hv fun upper => ?_
  split
  · exact like_giveInteger (h.warn _) _
  · exact like_drawBetween h _ _

lemma like_randomRange {u u' : Value} (hv : v.Boxed S.loose A v')
    (hu : u.Boxed S.loose A u') : (m.randomRange v u).Like S w A (m'.randomRange v' u') := by
  refine like_withInteger h _ _ hv fun lower => like_withInteger h _ _ hu fun upper => ?_
  split
  · exact like_giveInteger h _
  · split
    · exact like_giveInteger (h.warn _) _
    · exact like_drawBetween h _ _

lemma like_push (b) (installed : Bool) {event : String → Event} (hv : v.Boxed S.loose A v')
    (hq : Option.Rel w.places q q') :
    (m.push b installed event v q).Like S w A (m'.push b installed event v' q') := by
  unfold push
  split
  · exact like_withText h hv.payload hq fun s =>
      like_null (h.onWorld (f := (·.record (event s))) fun _ => rfl)
  · exact like_null (h.warn _)

end

/-! ### Scripts in scripts -/

lemma like_runStatements (h : Akin S w A m m') {b b' : Block} (hb : b.Like w b') {rest rest'}
    (hr : Forall₂ (Stmt.Like w) rest rest') (frame) :
    (m.runStatements b rest frame).Like S w A (m'.runStatements b' rest' frame) := by
  cases hr with
  | nil => exact like_nothing h
  | cons hs hr => exact like_exec h hs frame (.block frame hb hr)

/-- A machine on which a run has just begun. -/
def inRun (m : Machine) (i : Ref) : Machine :=
  { m with collectors := i :: m.collectors, stack := .run m.current :: m.stack, current := i }

lemma Akin.inRun (h : Akin S w A m m') (i) : Akin S w A (m.inRun i) (m'.inRun i) :=
  { h with
    collectors := congrArg (i :: ·) h.collectors
    current := rfl
    stack := by
      simp only [Machine.inRun]
      rw [← h.current]
      exact .run m.current h.stack }

lemma like_startRun {i} (h : Akin S w A (m.inRun i) (m'.inRun i))
    (hi : S.spare (m.interpreter i).globals = []) {x x' : Program} (hx : x.body.Like w x'.body) :
    (m.startRun i x).Like S w A (m'.startRun i x') := by
  have same : m.interpreter i = m'.interpreter i := h.interpreter i
  unfold startRun
  dsimp only
  rw [← same]
  have frame := h.frames (m.interpreter i).globals
  rw [hi] at frame
  have extended := h.modifyFrame (m.interpreter i).globals (·.extend x.body.slots)
    (·.extend x'.body.slots) (by rw [hi]; exact frame.extend h.exact hx.slots)
  exact like_runStatements extended hx hx.statements _

lemma Akin.newInterpreter (h : Akin S w A m m') (limit : Int) (relinks : Bool) :
    Akin S w A (m.newInterpreter limit relinks).2 (m'.newInterpreter limit relinks).2 :=
  { h.newFrame (.of_cells none .nil) with
    interpreters := by
      simp only [Machine.newInterpreter, Machine.newFrame, h.interpreters, h.frames_size] }

lemma like_evaluateText (h : Akin S w A m m') (hv : v.Boxed S.loose A v')
    (hq : Option.Rel w.places q q') : (m.evaluateText v q).Like S w A (m'.evaluateText v' q') := by
  unfold evaluateText
  rw [← string?_eq hv.payload, ← kindOf_eq hv.payload]
  split
  · exact like_null (h.warn _)
  · rename_i source _
    obtain ⟨w', hw, hb, ht, hl, hc⟩ := S.compile h.tied source m.registry h.natives
    have same : DynScript.compile source evalOptions m.registry [] m'.supply =
        DynScript.compile source evalOptions m'.registry [] m'.supply := by rw [h.registry]
    rw [same] at ht hl hc
    have related := h.relate hw hb ht (DynScript.compile source evalOptions m.registry [] m.supply).log
    dsimp only
    rw [← hl]
    generalize (DynScript.compile source evalOptions m.registry [] m.supply).result = x at hc
    generalize (DynScript.compile source evalOptions m'.registry [] m'.supply).result = x' at hc
    refine Like.widen hw le_rfl ?_
    cases hc with
    | error e e' => exact like_null (related.warn _)
    | @unit u u' body errors scanErrors =>
      have ok : u.ok = u'.ok := by rw [CompiledUnit.ok, CompiledUnit.ok, errors, scanErrors]
      dsimp only
      rw [← ok]
      split
      · -- The new interpreter's global frame is new, too.
        have made := related.newInterpreter defaultLimit true
        have first : m.interpreters.size = m'.interpreters.size := by rw [h.interpreters]
        have site := made.pend (.site (rel_places_mono hw hq))
        simp only [newInterpreter, newFrame, ← first] at site ⊢
        refine like_startRun (site.inRun _) ?_ body
        simp only [interpreter, Array.getD_eq_getD_getElem?, Array.getElem?_push_size,
          Option.getD_some]
        exact h.spare_eq_nil (Nat.le_refl _)
      · exact like_null (related.warn _)

/-! ### All functions of the library -/

lemma boxed_getD (h : Forall₂ (Value.Boxed l A) vs vs')
    (i : Nat) : (vs.getD i .null).Boxed l A (vs'.getD i .null) := by
  induction h generalizing i with
  | nil => exact .null
  | cons hv _ ih =>
    cases i with
    | zero => exact hv
    | succ i => exact ih i

lemma forall₂_boxed_lines (l : Prop) (A : Container → Prop) (lines : List String) :
    Forall₂ (Value.Boxed l A) (lines.map fun s => boxed (.string s))
      (lines.map fun s => boxed (.string s)) := by
  rw [forall₂_map_left_iff, forall₂_map_right_iff]
  exact forall₂_same.2 fun s _ => .mk _ (.inr rfl) nofun

lemma linesOf_eq (h : Akin S w A m m') (r) :
    linesOf m.heap (m.heap.array r).toList = linesOf m'.heap (m'.heap.array r).toList := by
  unfold linesOf
  rw [mapM_eq_of_map (fun a b hab => Heap.text_eq h.heap.agrees hab) (h.heap.agrees.arrays r)]

lemma like_callBuiltin (h : Akin S w A m m') (b) (hv : Forall₂ (Value.Boxed S.loose A) vs vs')
    (hq : Option.Rel w.places q q') :
    (m.callBuiltin b vs q).Like S w A (m'.callBuiltin b vs' q') := by
  have h₁ := boxed_getD hv 0
  have h₂ := boxed_getD hv 1
  unfold callBuiltin
  dsimp only
  cases b with
  | concat => exact like_concat h h₁ h₂
  | len => exact like_lengthOf h h₁ hq
  | toText => exact like_withText h h₁.payload hq fun s => like_giveDatum h nofun
  | debugLog =>
    exact like_withText h h₁.payload hq fun s =>
      like_null (h.onWorld (f := (·.write s)) fun _ => rfl)
  | debugLogLine =>
    exact like_withText h h₁.payload hq fun s =>
      like_null (h.onWorld (f := (·.write (s ++ "\n"))) fun _ => rfl)
  | debugReadLine =>
    exact like_fromWorld h World.readLine (fun _ => rfl) (fun m s => m.giveDatum (.string s))
      fun _ _ hk _ => like_giveDatum hk nofun
  | fileReadAllText => exact like_readFile h _ h₁ rfl fun s => like_giveDatum h nofun
  | fileReadAllLines =>
    exact like_readFile h _ h₁ rfl fun s =>
      like_giveArray h (forall₂_boxed_lines _ _ _)
  | fileWriteAllText =>
    refine like_writeTo h _ h₁ fun path => ?_
    rw [← string?_eq h₂.payload, ← kindOf_eq h₂.payload]
    split
    · exact like_null (h.warn _)
    · exact like_writeFile h _ _ _
  | fileWriteAllLines =>
    refine like_writeTo h _ h₁ fun path => ?_
    rw [← datum?_eq h₂.payload, ← kindOf_eq h₂.payload]
    split
    · rw [linesOf_eq h]
      split
      · exact like_writeFile h _ _ _
      · exact like_raise h _ hq
    · exact like_null (h.warn _)
  | random =>
    exact like_fromWorld h World.draw (fun _ => rfl)
      (fun m k => m.giveDatum (.number (Number.ofRatio false (k % 1000) 1000)))
      fun _ _ hk _ => like_giveDatum hk nofun
  | randomInt => exact like_randomInt h h₁
  | randomRange => exact like_randomRange h h₁ h₂
  | ticks =>
    exact like_fromWorld h World.tick (fun _ => rfl) (fun m t => m.giveInteger t)
      fun _ _ hk _ => like_giveInteger hk _
  | evaluate => exact like_evaluateText h h₁ hq
  | warning => exact like_withText h h₁.payload hq fun s => like_null (h.warn _)
  | pushLine =>
    rw [← h.world]
    exact like_push h _ _ h₁ hq
  | pushFormatLine =>
    rw [← h.world]
    exact like_push h _ _ h₁ hq
  | waitInput =>
    dsimp only
    rw [← h.world]
    split
    · exact like_giveInteger (h.warn _) _
    · exact like_giveConverted h (.inr (h.input _ ‹_›)) hq
  | clearView =>
    dsimp only
    rw [← h.world]
    split
    · exact like_null (h.onWorld (f := (·.record .clearView)) fun _ => rfl)
    · exact like_null (h.warn _)

/-! ### Calls -/

lemma forall₂_bindings {slots slots'} (hs : Forall₂ (Slot.Like w) slots slots')
    (hv : Forall₂ (Value.Boxed l A) vs vs') :
    Forall₂ (fun c c' : Nat × Value => w.slots c.1 c'.1 ∧ c.2.Held l A c'.2)
      ((slots.zip vs).map fun (slot, v) => (slot.id, v))
      ((slots'.zip vs').map fun (slot, v) => (slot.id, v)) := by
  induction hs generalizing vs vs' with
  | nil => exact .nil
  | cons hs _ ih =>
    cases hv with
    | nil => exact .nil
    | cons hv hvs => exact .cons ⟨hs.id, .boxed hv⟩ (ih hvs)

lemma Akin.inCall (h : Akin S w A m m') (he : exit.Like w exit') (owner)
    (hq : Option.Rel w.places q q') : Akin S w A
      { m with stack := .call exit owner m.current q :: m.stack, current := owner }
      { m' with stack := .call exit' owner m.current q' :: m'.stack, current := owner } :=
  { h with current := rfl, stack := .call owner m.current he hq h.stack }

lemma like_enter (h : Akin S w A m m') {code code' : FunctionCode} (hc : code.Like w code')
    (frame owner) (hv : v.Held S.loose A v') (ha : Forall₂ (Value.Boxed S.loose A) vs vs')
    (hq : Option.Rel w.places q q') :
    (m.enter ⟨code, frame, owner⟩ v vs q).Like S w A
      (m'.enter ⟨code', frame, owner⟩ v' vs' q') := by
  unfold enter
  dsimp only [newFrame, updateInterpreter]
  rw [← h.interpreter owner, ← hc.name, ← h.frames_size, ← h.current]
  split
  · exact like_raise h _ hq
  · have self : Forall₂ (fun c c' : Nat × Value => w.slots c.1 c'.1 ∧ c.2.Held S.loose A c'.2)
        (code.self.toList.map fun slot => (slot.id, v))
        (code'.self.toList.map fun slot => (slot.id, v')) := by
      have hs := hc.self
      generalize code.self = o at hs
      generalize code'.self = o' at hs
      cases hs with
      | none => exact .nil
      | some hs => exact .cons ⟨hs.id, hv⟩ .nil
    have cells := rel_append (forall₂_bindings hc.params ha) self
    have made := h.newFrame (.of_cells (some frame) cells)
    have entered := made.updateInterpreter owner fun i => { i with depth := i.depth + 1 }
    exact (entered.inCall hc.exit owner hq).go (.exec _ (.block hc.body))

variable {host : Host} {b b' : Bool} {twin : Prop}

lemma like_callHost (hh : host.Fair S.loose twin) (h : Akin S w A m m') (symbol) {bound}
    (hb : ∀ v ∈ bound, w.bound v) (hv : Forall₂ (Value.Boxed S.loose A) vs vs')
    (ht : twin → m.heap = m'.heap ∧ vs = vs') (hq : Option.Rel w.places q q') :
    (m.callHost ⟨host, b⟩ symbol bound vs q).Like S w A
      (m'.callHost ⟨host, b'⟩ symbol bound vs' q') := by
  obtain ⟨B, hB, ha, hk⟩ := hh w A m.heap m'.heap h.heap symbol bound
    (fun v hv => h.bound v (hb v hv)) vs vs' hv ht
  unfold callHost
  generalize host.call symbol bound vs m.heap = x at ha hk
  generalize host.call symbol bound vs' m'.heap = x' at ha hk
  obtain ⟨answer, k⟩ := x
  obtain ⟨answer', k'⟩ := x'
  have akin := h.setHeap hB hk
  refine Like.widen (.refl w) hB ?_
  dsimp only at ha ⊢
  cases ha with
  | value hv => exact like_giveConverted akin (.inr hv) hq
  | error he => exact akin.go (.raise (he.withLocation hq))
  | invoke hf hv =>
    exact (akin.pend (.site hq)).go (.apply (.value (.inr hf)) (hv.imp fun _ _ => .inr) .none)

lemma forall₂_accepted {c c' : Callable} (hc : c.Like w c')
    (hv : Forall₂ (Value.Boxed l A) vs vs') :
    Forall₂ (Value.Boxed l A) (c.accepted vs) (c'.accepted vs') := by
  unfold Callable.accepted
  rw [← hc.variadic, ← hc.arity, ← hv.length_eq]
  split
  · exact hv
  · split
    · exact forall₂_take _ hv
    · exact forall₂_take _ hv

lemma like_call (hh : host.Fair S.loose twin) (h : Akin S w A m m') {c c' : Callable}
    (hc : c.Like w c') (hv : v.Boxed S.loose A v')
    (ha : Forall₂ (Value.Passed S.loose A) vs vs') (hq : Option.Rel w.places q q')
    (ht : twin → m.heap = m'.heap ∧ c = c' ∧ vs = vs') :
    (m.call ⟨host, b⟩ c v vs q).Like S w A (m'.call ⟨host, b'⟩ c' v' vs' q') := by
  unfold call
  rw [← hc.arity, ← hc.name, ← ha.length_eq]
  split
  · exact like_raise h _ hq
  · refine like_onHeap_of_ok h (HeapM.Like.mapM .mono (ha.imp fun _ _ => HeapM.like_convert)) hq
      fun B hB k k' us us' he he' hk hu => ?_
    have accepted := forall₂_accepted hc hu
    have same : twin → k = k' ∧ c.accepted us = c'.accepted us' := by
      intro t
      obtain ⟨e, rfl, rfl⟩ := ht t
      rw [← e, he] at he'
      cases he'
      exact ⟨rfl, rfl⟩
    cases hc with
    | closure frame owner hc =>
      exact like_enter hk hc frame owner (.boxed (hv.mono hB)) accepted hq
    | @native f hf =>
      dsimp only
      cases hbody : f.body with
      | builtin x => exact like_callBuiltin hk x accepted hq
      | host symbol bound =>
        refine like_callHost hh hk symbol (fun v hv => hf v ?_) accepted same hq
        simpa only [NativeFunction.bound, hbody] using hv

lemma like_apply (hh : host.Fair S.loose twin) (h : Akin S w A m m') {f f' : Callee}
    (hf : f.Like w S.loose A f')
    (ha : Forall₂ (Value.Passed S.loose A) vs vs') (hq : Option.Rel w.places q q')
    (ht : twin → m.heap = m'.heap ∧ vs = vs') :
    (m.apply ⟨host, b⟩ f vs q).Like S w A (m'.apply ⟨host, b'⟩ f' vs' q') := by
  cases hf with
  | native hf =>
    exact like_call hh h (.native hf) .null ha hq fun t => ⟨(ht t).1, rfl, (ht t).2⟩
  | value hv =>
    unfold apply
    dsimp only
    rw [← kind_eq hv.payload, ← datum?_eq hv.payload]
    split
    · exact like_raise h _ hq
    · split
      · exact like_call hh h (h.heap.functions _) (.mk (.callable _) (.inr rfl) nofun) ha hq
          fun t => ⟨(ht t).1, by rw [(ht t).1], (ht t).2⟩
      · exact like_raise h _ hq

lemma like_evalArguments (h : Akin S w A m m') {f f' : Callee} (hf : f.Like w S.loose A f')
    {before before'} (hb : Forall₂ (Value.Held S.loose A) before before') {rest rest'}
    (hr : Forall₂ (Expr.Like w) rest rest') (frame) (hp : w.places p p') :
    (m.evalArguments f before rest frame p).Like S w A
      (m'.evalArguments f' before' rest' frame p') := by
  cases hr with
  | nil =>
    refine h.go (.apply hf ?_ (.some hp))
    exact (rel_reverse hb).imp fun _ _ => .inl
  | cons he hr => exact like_eval h he frame (.argument frame hf hb hr hp)

/-! ### Assignments -/

variable {old old' : Option (BinaryOp × Value)}

lemma like_updated (h : Akin S w A m m') (ho : LikeOld S.loose A old old') (hv : v.Held S.loose A v')
    :
    LikeAnswer (Value.Held S.loose A) (updated m.heap old v) (updated m'.heap old' v') := by
  cases ho with
  | none => exact .ok hv
  | @some o o' ho =>
    obtain ⟨op, u⟩ := o
    obtain ⟨op', u'⟩ := o'
    obtain ⟨rfl, hu⟩ := ho
    exact Heap.like_binary h.heap op hu hv

section

variable (h : Akin S w A m m')
include h

lemma Akin.store {c c' : Cell} (hc : c.Like w c')
    (hv : v.Held S.loose A v') : Akin S w A (m.store c v) (m'.store c' v') := by
  obtain ⟨frame, id⟩ := c
  obtain ⟨_, id'⟩ := c'
  obtain ⟨rfl, hi⟩ := hc
  exact h.modifyFrame frame _ _ ((h.frames frame).set h.exact hi (h.apart hi frame) hv)

lemma like_storeVariable {c c' : Cell} (hc : c.Like w c')
    (hv : v.Held S.loose A v') (hp : w.places p p') :
    (m.storeVariable c v p).Like S w A (m'.storeVariable c' v' p') :=
  like_onHeap h (HeapM.like_convert (.inl hv)) (.some hp) fun _ _ _ _ hk _ _ hu =>
    like_give (hk.store hc (.boxed hu)) (.boxed hu)

lemma like_storeIndex {c c' i i' : Value} (hc : c.Held S.loose A c')
    (hi : i.Held S.loose A i') (hv : v.Held S.loose A v') (hp : w.places p p') :
    (m.storeIndex c i v p).Like S w A (m'.storeIndex c' i' v' p') :=
  like_onHeap h (HeapM.like_setIndex hc hi hv) (.some hp) fun _ _ _ _ hk _ _ hu =>
    like_give hk (.boxed hu)

lemma like_storeField {c c' i i' : Value} (hc : c.Held S.loose A c')
    (hi : i.Held S.loose A i') (hv : v.Held S.loose A v') (hp : w.places p p') :
    (m.storeField c i v p).Like S w A (m'.storeField c' i' v' p') :=
  like_onHeap h (HeapM.like_setField hc hi hv) (.some hp) fun _ _ _ _ hk _ _ hu =>
    like_give hk (.boxed hu)

end

section

variable (h : Akin S w A m m')
include h

lemma like_update {u u' : Update} (hu : u.Like w u') (frame) (hp : w.places p p')
    {current current' : Heap → Except Fault Value}
    (hc : LikeAnswer (Value.Held S.loose A) (current m.heap) (current' m'.heap))
    {pending pending' : Option (BinaryOp × Value) → Pending}
    (hk : ∀ o o', LikeOld S.loose A o o' → (pending o).Like w S.loose A (pending' o'))
    {store store' : Machine → Value → Machine}
    (hs : ∀ v v', v.Held S.loose A v' → (store m v).Like S w A (store' m' v')) :
    (m.update u frame p current pending store).Like S w A
      (m'.update u' frame p' current' pending' store') := by
  unfold update
  generalize current m.heap = x at hc
  generalize current' m'.heap = x' at hc
  cases hu with
  | set he => exact like_eval h he frame (hk _ _ .none)
  | combine op he =>
    cases hc with
    | ok hv => exact like_eval h he frame (hk _ _ (.some ⟨rfl, hv⟩))
    | error e => exact like_raise h e (.some hp)
  | step op =>
    cases hc with
    | error e => exact like_raise h e (.some hp)
    | ok hv =>
      have new := Heap.like_unary h.heap op hv
      dsimp only
      generalize m.heap.unary op _ = y at new
      generalize m'.heap.unary op _ = y' at new
      cases new with
      | ok hv => exact hs _ _ hv
      | error e => exact like_raise h e (.some hp)

/-! ### Variables -/

lemma rel_cellWithin {i i' : Nat} (hi : w.slots i i') (depth : Nat) (r) :
    Option.Rel (Cell.Like w) (cellWithin m.frames i depth r)
      (cellWithin m'.frames i' depth r) := by
  induction depth generalizing r with
  | zero => exact .none
  | succ depth ih =>
    have frame := h.frames r
    have known := isSome_eq_of_rel (frame.get? h.exact hi (h.apart hi r))
    rw [Seen.cellWithin_succ, Seen.cellWithin_succ, ← known, ← frame.parent]
    split
    · exact .some ⟨rfl, hi⟩
    · cases (frameAt m.frames r).parent with
      | none => exact .none
      | some parent => exact ih parent

lemma rel_cell? {slot slot' : Slot} (hs : slot.Like w slot') (r) :
    Option.Rel (Cell.Like w) (m.cell? slot r) (m'.cell? slot' r) := by
  unfold cell?
  rw [← h.frames_size]
  exact rel_cellWithin h hs.id _ r

lemma held_load {c c' : Cell} (hc : c.Like w c') : (m.load c).Held S.loose A (m'.load c') := by
  have found := (h.frames c.frame).get? h.exact hc.id (h.apart hc.id c.frame)
  unfold load
  rw [← hc.frame]
  change Value.Held S.loose A (((frameAt m.frames c.frame).get? c.id).getD .null)
    (((frameAt m'.frames c.frame).get? c'.id).getD .null)
  generalize (frameAt m.frames c.frame).get? c.id = o at found
  generalize (frameAt m'.frames c.frame).get? c'.id = o' at found
  cases found with
  | none => exact .boxed .null
  | some hv => exact hv

lemma like_withCell {slot slot' : Slot} (hs : slot.Like w slot') (frame) (hp : w.places p p')
    {next next' : Cell → Machine} (hn : ∀ c c', c.Like w c' → (next c).Like S w A (next' c')) :
    (m.withCell slot frame p next).Like S w A (m'.withCell slot' frame p' next') := by
  have found := rel_cell? h hs frame
  unfold withCell
  rw [← hs.name]
  generalize m.cell? slot frame = o at found
  generalize m'.cell? slot' frame = o' at found
  cases found with
  | none => exact like_raise h _ (.some hp)
  | some hc => exact hn _ _ hc

/-! ### Expressions and statements -/

lemma like_evalFields {record} (hc : A (.record record)) {rest rest'}
    (hr : Forall₂ (Expr.LikeField w) rest rest') (frame) (hp : w.places p p') :
    (m.evalFields record rest frame p).Like S w A (m'.evalFields record rest' frame p') := by
  cases hr with
  | nil => exact like_giveDatum h fun c hd => by cases hd; exact hc
  | cons he hr =>
    cases he with
    | mk name he => exact like_eval h he frame (.recordField name frame hc hr hp)

lemma like_stepEval (hb : S.loose ∨ b = b') {e e' : Expr} (he : e.Like w e') (frame) :
    (m.stepEval ⟨host, b⟩ e frame).Like S w A (m'.stepEval ⟨host, b'⟩ e' frame) := by
  cases he with
  | literal value hp => exact like_give h (.wrap value.isScalar_datum hb)
  | read hs hp =>
    exact like_withCell h hs frame hp fun c c' hc => like_give h (held_load h hc)
  | box he => exact like_eval h he frame (.box he.place)
  | unbox he => exact like_eval h he frame .unbox
  | array hi hp =>
    cases hi with
    | nil => exact like_giveArray h .nil
    | cons he hr => exact like_eval h he frame (.arrayItem frame .nil hr hp)
  | record hf hs hp =>
    simp only [stepEval]
    refine like_onHeap h (HeapM.like_newRecord .nil) .none fun B hB k k' hk r r' hr => ?_
    obtain ⟨rfl, hr⟩ := hr
    -- The fields see the record under its own name.
    have self := Value.Held.boxed (.mk (l := S.loose) (m := 0) (.record r) (.inr rfl)
      fun c hc => by cases hc; exact hr)
    dsimp only [newFrame]
    rw [← hk.frames_size]
    exact like_evalFields (hk.newFrame (.of_cells (some frame) (.cons ⟨hs.id, self⟩ .nil))) hr hf _ hp
  | function name hv hb he hs hp =>
    simp only [stepEval]
    rw [← h.current]
    have code : FunctionCode.Like w ⟨name, _, _, _, _⟩ ⟨name, _, _, _, _⟩ :=
      ⟨(rfl : name = name), hv, hb, he, hs⟩
    refine like_onHeap h (HeapM.like_newFunction (.closure frame m.current code)) .none
      fun B hB k k' hk r _ e => ?_
    subst e
    exact like_giveDatum hk nofun
  | binary op hl hr hp => exact like_eval h hl frame (.binaryLeft op frame hr hp)
  | logical op hl hr hp => exact like_eval h hl frame (.logicalLeft op frame hr)
  | unary op he hp => exact like_eval h he frame (.unary op hp)
  | ternary hc ha hb hp => exact like_eval h hc frame (.ternary frame ha hb)
  | assignVariable hs hu hp =>
    exact like_withCell h hs frame hp fun c c' hc => like_update h hu frame hp
      (.ok (held_load h hc)) (fun _ _ ho => .storeVariable hc ho hp)
      fun _ _ hv => like_storeVariable h hc hv hp
  | assignIndex hc hi hu hp =>
    exact like_eval h hc frame (.assignIndexContainer frame hi hu hp)
  | assignField hc hi hu hp =>
    exact like_eval h hc frame (.assignFieldContainer frame hi hu hp)
  | call hf hl hp => exact like_eval h hf frame (.callee frame hl hp)
  | native name hf hl hp =>
    simp only [stepEval]
    rw [← h.current, ← h.interpreter, ← h.registry]
    refine like_evalArguments h (.native ?_) .nil hl frame hp
    split
    · cases found : m.registry.lookup name with
      | none => exact hf
      | some g => exact h.natives name g found
    · exact hf
  | index hc hi hp => exact like_eval h hc frame (.indexContainer frame hi hp)
  | field hc hi hp => exact like_eval h hc frame (.fieldContainer frame hi hp)

lemma like_stepExec {s s' : Stmt} (hs : s.Like w s') (frame) :
    (m.stepExec s frame).Like S w A (m'.stepExec s' frame) := by
  cases hs with
  | expression he hp => exact h.go (.eval frame he)
  | declare hs he hp => exact like_eval h he frame (.declare frame hs hp)
  | print he hp => exact like_eval h he frame (.print hp)
  | block hb =>
    simp only [stepExec]
    rw [← isEmpty_eq_of_forall₂ hb.slots]
    split
    · exact like_runStatements h hb hb.statements frame
    · have fresh := Frame.Like.extend (.of_cells (l := S.loose) (A := A) (some frame) .nil) h.exact
        hb.slots
      dsimp only [newFrame]
      rw [← h.frames_size]
      exact like_runStatements (h.newFrame fresh) hb hb.statements _
  | branch hc ha hb hp => exact like_eval h hc frame (.branch frame ha hb)
  | loop hc ha hs he hn hp => exact like_eval h hc frame (.loopTest frame hc ha hs he hn)
  | jump hl he hp =>
    cases he with
    | none => exact h.go (.jump hl .nothing)
    | some he => exact like_eval h he frame (.jumpValue hl)
  | label hl hp => exact like_nothing h

/-! ### Values -/

lemma like_nextRound {c c' : Expr} {a a' : Stmt} {s s'} {next next' : Label} (frame)
    (hc : c.Like w c') (ha : a.Like w a') (hs : Option.Rel (Expr.Like w) s s')
    (he : exit.Like w exit') (hn : next.Like w next') :
    (m.nextRound c a s exit next frame).Like S w A (m'.nextRound c' a' s' exit' next' frame) := by
  have loop := hs
  cases hs with
  | none => exact like_eval h hc frame (.loopTest frame hc ha loop he hn)
  | some hs => exact like_eval h hs frame (.loopStep frame hc ha loop he hn)

lemma like_giveTruth (hb : S.loose ∨ b = b') (x : Bool) :
    (m.giveTruth ⟨host, b⟩ x).Like S w A (m'.giveTruth ⟨host, b'⟩ x) :=
  like_give h (.wrap rfl hb)

end

section

variable {s s' : List Pending} {c c' : Control}

lemma Akin.leaveCall (h : Akin S w A m m') (owner caller)
    (hs : StackLike w S.loose A S.foot caller m.collectors s s') :
    Akin S w A (leaveCall { m with control := c, stack := s } owner caller)
      (leaveCall { m' with control := c', stack := s' } owner caller) :=
  { h.updateInterpreter owner fun i => { i with depth := i.depth - 1 } with
    current := rfl, stack := hs }

lemma Akin.leaveRun (h : Akin S w A m m') (caller)
    (hs : StackLike w S.loose A S.foot caller m.collectors.tail s s') :
    Akin S w A (leaveRun { m with control := c, stack := s } caller)
      (leaveRun { m' with control := c', stack := s' } caller) :=
  { h with current := rfl, collectors := congrArg List.tail h.collectors, stack := hs }

end

section

variable (h : Akin S w A m m')
include h

lemma like_box (hb : S.loose ∨ b = b') (hv : v.Held S.loose A v') (p p') :
    (m.resume ⟨host, b⟩ (.box p) v).Like S w A
      (m'.resume ⟨host, b'⟩ (.box p') v') := by
  obtain ⟨u, u', e, e', hu, mixed⟩ := HeapM.convert_of_held hv
  simp only [resume, onHeap_eq, e, e']
  cases b <;> cases b'
  · exact like_give h (.boxed hu)
  · exact like_give h (mixed (hb.resolve_right nofun)).1
  · exact like_give h (mixed (hb.resolve_right nofun)).2
  · exact like_give h hv

lemma like_unbox (hb : S.loose ∨ b = b') (hv : v.Held S.loose A v') :
    (m.resume ⟨host, b⟩ .unbox v).Like S w A (m'.resume ⟨host, b'⟩ .unbox v') := by
  obtain ⟨both, mixed⟩ := hv.unbox
  cases b <;> cases b'
  · exact like_give h both
  · exact like_give h (mixed (hb.resolve_right nofun)).1
  · exact like_give h (mixed (hb.resolve_right nofun)).2
  · exact like_give h hv

lemma like_stored (ho : LikeOld S.loose A old old') (hv : v.Held S.loose A v') (hp : w.places p p')
    {store store' : Value → Machine}
    (hs : ∀ u u', u.Held S.loose A u' → (store u).Like S w A (store' u')) :
    Like S w A
      (match updated m.heap old v with
        | .ok u => store u
        | .error f => m.raise f p)
      (match updated m'.heap old' v' with
        | .ok u => store' u
        | .error f => m'.raise f p') := by
  have new := like_updated h ho hv
  generalize updated m.heap old v = x at new
  generalize updated m'.heap old' v' = x' at new
  cases new with
  | ok hu => exact hs _ _ hu
  | error f => exact like_raise h f (.some hp)

lemma like_resume (hb : S.loose ∨ b = b') (hk : k.Like w S.loose A k') (hv : v.Held S.loose A v') :
    (m.resume ⟨host, b⟩ k v).Like S w A (m'.resume ⟨host, b'⟩ k' v') := by
  have truth := isTrue_eq hv.payload
  cases hk with
  | box hp => exact like_box h hb hv _ _
  | unbox => exact like_unbox h hb hv
  | arrayItem frame hi hr hp =>
    simp only [resume]
    refine like_onHeap h (HeapM.like_convert (.inl hv)) (.some hp) fun B hB n n' hn u u' hu => ?_
    have items := Forall₂.cons hu (hi.imp fun _ _ => .mono hB)
    cases hr with
    | nil => exact like_giveArray hn (rel_reverse items)
    | cons he hr => exact like_eval hn he frame (.arrayItem frame items hr hp)
  | recordField name frame hc hr hp =>
    simp only [resume]
    refine like_onHeap h (HeapM.like_convert (.inl hv)) (.some hp) fun B hB n n' hn u u' hu => ?_
    refine like_onHeap hn (HeapM.like_modify fun C hC k k' hk =>
      hk.setField (hu.mono hC) (hC _ (hB _ hc)) name) .none fun C hC n n' hn _ _ _ => ?_
    exact like_evalFields hn (hC _ (hB _ hc)) hr frame hp
  | binaryLeft op frame he hp => exact like_eval h he frame (.binaryRight op hv hp)
  | binaryRight op hl hp =>
    simp only [resume]
    exact like_look h (Heap.like_binary h.heap op hl hv) hp
  | logicalLeft op frame he =>
    simp only [resume]
    rw [← truth]
    split
    · exact like_giveTruth h hb _
    · exact like_giveTruth h hb _
    · exact like_eval h he frame (.logicalRight _ _)
  | logicalRight op left =>
    simp only [resume]
    rw [← truth]
    exact like_giveTruth h hb _
  | unary op hp =>
    simp only [resume]
    exact like_look h (Heap.like_unary h.heap op hv) hp
  | ternary frame ha hc =>
    simp only [resume]
    rw [← truth]
    split
    · exact h.go (.eval frame ha)
    · exact h.go (.eval frame hc)
  | storeVariable hc ho hp =>
    exact like_stored h ho hv hp fun _ _ hu => like_storeVariable h hc hu hp
  | assignIndexContainer frame he hu hp =>
    exact like_eval h he frame (.assignIndex frame hv hu hp)
  | assignIndex frame hc hu hp =>
    simp only [resume]
    exact like_update h hu frame hp (like_getIndex h.heap hc hv)
      (fun _ _ ho => .storeIndex hc hv ho hp) fun _ _ hn => like_storeIndex h hc hv hn hp
  | storeIndex hc hi ho hp =>
    exact like_stored h ho hv hp fun _ _ hu => like_storeIndex h hc hi hu hp
  | assignFieldContainer frame he hu hp =>
    exact like_eval h he frame (.assignField frame hv hu hp)
  | assignField frame hc hu hp =>
    simp only [resume]
    exact like_update h hu frame hp (like_getField h.heap hc hv)
      (fun _ _ ho => .storeField hc hv ho hp) fun _ _ hn => like_storeField h hc hv hn hp
  | storeField hc hi ho hp =>
    exact like_stored h ho hv hp fun _ _ hu => like_storeField h hc hi hu hp
  | callee frame he hp => exact like_evalArguments h (.value (.inl hv)) .nil he frame hp
  | argument frame hf hl hr hp => exact like_evalArguments h hf (.cons hv hl) hr frame hp
  | indexContainer frame he hp => exact like_eval h he frame (.index hv hp)
  | index hc hp =>
    simp only [resume]
    exact like_look h (like_getIndex h.heap hc hv) hp
  | fieldContainer frame he hp => exact like_eval h he frame (.field hv hp)
  | field hc hp =>
    simp only [resume]
    exact like_look h (like_getField h.heap hc hv) hp
  | declare frame hs hp =>
    exact like_withCell h hs frame hp fun c c' hc => like_nothing (h.store hc hv)
  | print hp =>
    simp only [resume]
    exact like_withText h hv.payload (.some hp) fun s =>
      like_nothing (h.onWorld (f := (·.write (s ++ "\n"))) fun _ => rfl)
  | block frame hl hr =>
    cases hr with
    | nil => exact like_give h hv
    | cons hs hr => exact like_exec h hs frame (.block frame hl hr)
  | branch frame ha hc =>
    simp only [resume]
    rw [← truth]
    split
    · exact like_exec h ha frame .discard
    · cases hc with
      | none => exact like_nothing h
      | some hc => exact like_exec h hc frame .discard
  | discard => exact like_nothing h
  | loopTest frame hc ha hs he hn =>
    simp only [resume]
    rw [← truth]
    split
    · exact like_exec h ha frame (.loopBody frame hc ha hs he hn)
    · exact like_nothing h
  | loopBody frame hc ha hs he hn => exact like_nextRound h frame hc ha hs he hn
  | loopStep frame hc ha hs he hn => exact like_eval h hc frame (.loopTest frame hc ha hs he hn)
  | jumpValue ht => exact h.go (.jump ht hv)
  | site hp => exact like_give h hv

/-! ### Jumps and errors -/

omit h in
lemma rel_afterLabel (hw : w.Exact) (ht : t.Like w t') {l l'} (h : Forall₂ (Stmt.Like w) l l') :
    Option.Rel (Forall₂ (Stmt.Like w)) (Block.afterLabel t l) (Block.afterLabel t' l') := by
  induction h with
  | nil => exact .none
  | @cons s s' l l' hs hl ih =>
    cases hs with
    | @label n n' _ _ hn hp =>
      have same := hw.labels hn.id ht.id
      simp only [Block.afterLabel]
      by_cases hi : n.id = t.id
      · rw [if_pos hi, if_pos (same.1 hi)]
        exact .some hl
      · rw [if_neg hi, if_neg (mt same.2 hi)]
        exact ih
    | _ => simpa only [Block.afterLabel] using ih

lemma like_jumpThrough (hk : k.Like w S.loose A k') (ht : t.Like w t')
    (hc : m.control.Like w S.loose A m'.control) :
    (m.jumpThrough k t v).Like S w A (m'.jumpThrough k' t' v') := by
  cases hk with
  | block frame hb hr =>
    have found := rel_afterLabel h.exact ht hb.statements
    simp only [jumpThrough, Block.resumeAt]
    generalize Block.afterLabel t _ = o at found
    generalize Block.afterLabel t' _ = o' at found
    cases found with
    | none => exact h.like hc
    | some hr => exact like_runStatements h hb hr frame
  | @loopBody _ _ _ _ _ _ exit exit' next next' frame hcond ha hs he hn =>
    simp only [jumpThrough]
    by_cases hexit : t.id = exit.id
    · rw [if_pos hexit, if_pos ((h.exact.labels ht.id he.id).1 hexit)]
      exact like_nothing h
    · rw [if_neg hexit, if_neg (mt (h.exact.labels ht.id he.id).2 hexit)]
      by_cases hnext : t.id = next.id
      · rw [if_pos hnext, if_pos ((h.exact.labels ht.id hn.id).1 hnext)]
        exact like_nextRound h frame hcond ha hs he hn
      · rw [if_neg hnext, if_neg (mt (h.exact.labels ht.id hn.id).2 hnext)]
        exact h.like hc
  | _ => exact h.like hc

lemma like_jumpThrough_call (he : exit.Like w exit') (owner caller)
    (hq : Option.Rel w.places q q') {s s'}
    (hs : StackLike w S.loose A S.foot caller m.collectors s s') (ht : t.Like w t')
    (hv : v.Held S.loose A v') :
    (jumpThrough { m with control := .jump t v, stack := s } (.call exit owner caller q) t v).Like
      S w A (jumpThrough { m' with control := .jump t' v', stack := s' }
        (.call exit' owner caller q') t' v') := by
  simp only [jumpThrough]
  by_cases hexit : t.id = exit.id
  · rw [if_pos hexit, if_pos ((h.exact.labels ht.id he.id).1 hexit)]
    exact like_giveConverted (h.leaveCall owner caller hs) (.inl hv) hq
  · rw [if_neg hexit, if_neg (mt (h.exact.labels ht.id he.id).2 hexit)]
    exact (h.leaveCall owner caller hs).like (.jump ht hv)

lemma like_raiseThrough (hk : k.Like w S.loose A k') {e e' : RuntimeError} (he : e.Like w e')
    (hc : m.control.Like w S.loose A m'.control) :
    (m.raiseThrough k e).Like S w A (m'.raiseThrough k' e') := by
  cases hk with
  | site hp => exact h.go (.raise (he.withLocation hp))
  | _ => exact h.like hc

end

/-! ### Steps -/

/-- What is about to be done takes up the stack. -/
def TakesUp : Control → Prop
  | .give _ | .jump _ _ | .raise _ => True
  | _ => False

lemma step_of_nil {rules} (hs : m.stack = []) (hc : TakesUp m.control) : m.step rules = m := by
  unfold step
  cases control : m.control with
  | eval e frame => cases control ▸ hc
  | exec s frame => cases control ▸ hc
  | apply callee arguments place => cases control ▸ hc
  | give v | jump target v | raise e =>
    dsimp only
    rw [hs]

/-- **Like machines take like steps,** unless they take up the feet of their stacks. -/
theorem like_step (hh : host.Fair S.loose twin) (hb : S.loose ∨ b = b') (h : Akin S w A m m')
    (hc : m.control.Like w S.loose A m'.control) (ht : twin → m = m') :
    (m.step ⟨host, b⟩).Like S w A (m'.step ⟨host, b'⟩) ∨
      TakesUp m.control ∧ S.foot w m.current m.collectors m.stack m'.stack := by
  have same : twin → m.heap = m'.heap ∧ m.control = m'.control := by
    intro t
    rw [ht t]
    exact ⟨rfl, rfl⟩
  unfold step
  generalize m.control = c at hc same
  generalize m'.control = c' at hc same
  have hs := h.stack
  generalize m.stack = s at hs
  generalize m'.stack = s' at hs
  have again := hc
  have rest {s s' : List Pending}
      (hs : StackLike w S.loose A S.foot m.current m.collectors s s') :
      Akin S w A { m with control := c, stack := s } { m' with control := c', stack := s' } :=
    { h with stack := hs }
  cases hc with
  | eval frame he => exact .inl (like_stepEval h hb he frame)
  | exec frame hs => exact .inl (like_stepExec h hs frame)
  | apply hf hv hp =>
    exact .inl (like_apply hh h hf hv hp fun t => ⟨(same t).1, by injection (same t).2⟩)
  | give hv =>
    cases hs with
    | foot hf => exact .inr ⟨trivial, hf⟩
    | cons hp hs => exact .inl (like_resume (rest hs) hb hp hv)
    | call owner caller _ _ hs => exact .inl (like_null (h.leaveCall owner caller hs))
    | run caller hs =>
      exact .inl (like_giveConverted (h.leaveRun caller hs) (.inl hv) .none)
  | jump ht hv =>
    cases hs with
    | foot hf => exact .inr ⟨trivial, hf⟩
    | cons hp hs => exact .inl (like_jumpThrough (rest hs) hp ht again)
    | call owner caller he hp hs =>
      exact .inl (like_jumpThrough_call h he owner caller hp hs ht hv)
    | run caller hs =>
      simp only [jumpThrough]
      rw [← ht.name]
      exact .inl (like_raise (h.leaveRun caller hs) _ .none)
  | raise he =>
    cases hs with
    | foot hf => exact .inr ⟨trivial, hf⟩
    | cons hp hs => exact .inl (like_raiseThrough (rest hs) hp he again)
    | call owner caller _ _ hs => exact .inl ((h.leaveCall owner caller hs).like again)
    | run caller hs => exact .inl ((h.leaveRun caller hs).like again)

end Machine

end DynScript

import DynScript.Proofs.Conclusions
import DynScript.Proofs.Fit

/-!
# Well-scoped code stays well scoped

Every step of a machine keeps the invariant `Machine.Fits`: code is taken apart but never changed,
frames only grow, and new code comes from the compiler.

Main declarations: `Machine.fits_step`.
-/

namespace DynScript

open List
open Code (Bound Lands)

/-- A host that makes no functions of scripts of its own and whose errors are not about variables or
labels. -/
def Host.Tame (host : Host) : Prop :=
  ∀ symbol bound arguments (h : Heap), h.Keeps (host.call symbol bound arguments h).2 ∧
    ∀ e, (host.call symbol bound arguments h).1 = .error e → e.fault.Ordinary

namespace Block

variable {target : Label} {l rest : List Stmt}

lemma isSome_afterLabel : (afterLabel target l).isSome ↔ Stmt.LabelAmong l target.id := by
  fun_induction afterLabel target l with
  | case1 => simp [Stmt.LabelAmong]
  | case2 l place rest he => exact iff_of_true rfl ⟨l, place, mem_cons_self, he⟩
  | case3 l place rest hne ih =>
    rw [ih]
    grind [Stmt.LabelAmong]
  | case4 s rest hs ih =>
    rw [ih]
    grind [Stmt.LabelAmong]

lemma subset_of_afterLabel (h : afterLabel target l = some rest) : ∀ s ∈ rest, s ∈ l := by
  fun_induction afterLabel target l with
  | case1 => cases h
  | case2 =>
    cases h
    exact fun s hs => mem_cons_of_mem _ hs
  | case3 _ _ _ _ ih => exact fun s hs => mem_cons_of_mem _ (ih h s hs)
  | case4 _ _ _ ih => exact fun s hs => mem_cons_of_mem _ (ih h s hs)

end Block

namespace Machine

variable {d : Charge} {x : Ref → List Slot} {m : Machine} {rules : Rules}

/-! ### Control -/

lemma fits_give (h : m.Sound d x) (v) : (m.give v).Fits d x :=
  ⟨h, trivial⟩

lemma fits_fail (h : m.Sound d x) {e : RuntimeError} (he : e.fault.Ordinary) :
    (m.go (.raise e)).Fits d x := by
  refine ⟨h, fun _ name hf => ?_, fun _ name hf => ?_⟩
  all_goals
    rw [hf] at he
    exact he

lemma fits_raise (h : m.Sound d x) {f : Fault} (hf : f.Ordinary) (place) :
    (m.raise f place).Fits d x :=
  fits_fail h hf

variable {frame : Ref} {p : Pending}

section

variable (h : m.Sound d x)
include h

lemma fits_eval {e} (he : DynScript.Fits d m.frames frame noTarget e)
    (hp : p.Fits d m.frames m.stack) : (m.eval e frame p).Fits d x :=
  ⟨h.pend hp, he⟩

lemma fits_exec {s} (hs : DynScript.Fits d m.frames frame (Owned · (p :: m.stack)) s)
    (hp : p.Fits d m.frames m.stack) : (m.exec s frame p).Fits d x :=
  ⟨h.pend hp, hs⟩

lemma fits_look {f : Heap → Except Fault Value} (hf : ∀ h, Decent (f h)) (place) :
    (m.look f place).Fits d x := by
  unfold look
  split
  · exact fits_give h _
  · exact fits_raise h (hf _ _ ‹_›) _

lemma fits_onHeap {α : Type} {f : HeapM α} (hf : f.Tame) (place) {next : Machine → α → Machine}
    (hn : ∀ a k, f m.heap = .ok a k → DynScript.Sound d x m.frames k m.interpreters m.stack →
      (next { m with heap := k } a).Fits d x) : (m.onHeap f place next).Fits d x := by
  rw [onHeap_eq]
  obtain ⟨hk, hd⟩ := hf m.heap
  split
  · rename_i a k hr
    rw [hr] at hk
    exact hn a k hr (h.keeps hk)
  · rename_i e k hr
    rw [hr] at hk
    exact fits_raise (m := { m with heap := k }) (h.keeps hk) (hd e k hr) place

lemma fits_convert (v : Value) (place) {next : Machine → Value → Machine}
    (hn : ∀ w k, DynScript.Sound d x m.frames k m.interpreters m.stack →
      (next { m with heap := k } w).Fits d x) : (m.onHeap v.convert place next).Fits d x :=
  fits_onHeap h v.tame_convert place fun w k _ hk => hn w k hk

lemma fits_giveArray (items) : (m.giveArray items).Fits d x :=
  fits_onHeap h (HeapM.Moves.make fun _ => .of_functions_eq rfl) _ fun _ _ _ hk => fits_give hk _

lemma fits_withText (v place) {next : Machine → String → Machine} (hn : ∀ s, (next m s).Fits d x) :
    (m.withText v place next).Fits d x := by
  unfold withText
  split
  · exact hn _
  · exact fits_raise h (m.heap.decent_text v _ ‹_›) place

lemma sound_warn (w) : (m.warn w).Sound d x := by
  refine warn_induct w h fun n r hn => ?_
  exact hn.update r (f := fun i => { i with warnings := i.warnings.push w.text }) fun _ => rfl

end

/-! ### Blocks and runs -/

/-- The statements of a block fit at the frame of the block. -/
def BlockFits (d : Charge) (F : Array Frame) (stack : List Pending) (b : Block) (frame : Ref) :
    Prop :=
  DynScript.Fits d F frame (fun id => Stmt.LabelAmong b.statements id ∨ Owned id stack) b.statements

lemma pendingFits_block {F stack} {b : Block} {rest} (hr : ∀ s ∈ rest, s ∈ b.statements)
    (hb : BlockFits d F stack b frame) : (Pending.block b rest frame).Fits d F stack :=
  ⟨hr, hb.retarget fun _ => owned_block.2⟩

lemma fits_runStatements (h : m.Sound d x) {b : Block} {rest} (hr : ∀ s ∈ rest, s ∈ b.statements)
    (hb : BlockFits d m.frames m.stack b frame) : (m.runStatements b rest frame).Fits d x := by
  cases rest with
  | nil => exact fits_give h _
  | cons s rest =>
    have hp := pendingFits_block (fun x hx => hr x (mem_cons_of_mem _ hx)) hb
    exact fits_exec h (hp.2.member (hr s mem_cons_self)) hp

lemma fits_startRun (h : m.Sound d x) {i} {p : Program}
    (hb : d.strict → ∃ V, p.body.Bound V ∧ d.Sees m.frames (m.interpreter i).globals V)
    (hm : ∀ c ∈ d.apart, Misses m.frames c.1 (m.interpreter i).globals)
    (hl : d.clean → p.body.Lands noTarget) : (m.startRun i p).Fits d x := by
  have hg := Grows.extend m.frames (m.interpreter i).globals p.body.slots
  have hs := (h.modify hg (by simp) (h.holds.extend _ _)).pend (p := .run m.current) trivial
  refine fits_runStatements (m := { m with
    frames := m.frames.modify (m.interpreter i).globals fun f => f.extend p.body.slots
    collectors := i :: m.collectors
    stack := .run m.current :: m.stack
    current := i }) hs (fun _ hs => hs) ?_
  have hlt : (m.interpreter i).globals < m.frames.size := (h.globals i).lt_size
  cases hbody : p.body with
  | mk statements slots place =>
    rw [hbody] at hb hl
    refine ⟨by simpa using hlt, fun hd => ?_, fun hd => ?_⟩
    · obtain ⟨V, hV, hc⟩ := hb hd
      simp only [Block.Bound] at hV
      have hc := hc.grows (hbody ▸ hg)
      refine ⟨slots ++ V, hV, fun hd => .append ⟨by simpa using hlt, fun slot hs => .here ?_⟩
        (hc.covers hd), fun c hp => ⟨(hc.misses c hp).1, fun _ _ _ => (hm c hp).grows (hbody ▸ hg)⟩⟩
      rw [Grows.frameAt_modify _ _ _ _ hlt, if_pos rfl]
      exact Frame.isSome_get?_extend_self _ hs
    · have := hl hd
      simp only [Block.Lands] at this
      exact fun s hs => (this s hs).mono fun id => Or.imp_right False.elim

lemma sound_newInterpreter (h : m.Sound d x) (limit : Int) (relinks : Bool) :
    (m.newInterpreter limit relinks).2.Sound d x := by
  refine h.step (.push m.frames {}) (h.rooted.push nofun) (.refl _) (fun i => ?_)
    (by simp [newInterpreter, newFrame]) (h.holds.push {})
  have old := (h.globals i).grows (.push m.frames {})
  simp only [newInterpreter, newFrame, Array.getD_eq_getD_getElem?, Array.getElem?_push] at old ⊢
  split
  · rw [h.unknown i (by omega)]
    exact ⟨by simp, nofun⟩
  · exact old

lemma fits_evaluateText (h : m.Sound d x) (code place) : (m.evaluateText code place).Fits d x := by
  unfold evaluateText
  split
  · exact fits_give (sound_warn h _) _
  · dsimp only
    split
    · refine fits_give (sound_warn ?_ _) _
      exact h
    · rename_i u hu
      have hc := scoped_of_compile hu
      split
      · rename_i hok
        have sound := sound_newInterpreter h defaultLimit true
        refine fits_startRun ?_ (fun _ => ⟨[], hc.bound, fun _ => ⟨?_, forall_mem_nil _⟩, fun c hp =>
          ⟨sound.holds.lt_size hp, forall_mem_nil _⟩⟩) (fun c hp => ?_) fun _ => hc.lands ?_
        · exact sound.pend (p := .site place) trivial
        · exact (sound.globals m.interpreters.size).lt_size
        · have new : frameAt (m.frames.push {}) m.frames.size = {} := by
            rw [Grows.frameAt_push, if_pos rfl]
          have globals : ((m.newInterpreter defaultLimit true).2.interpreter
              m.interpreters.size).globals = m.frames.size := by
            simp [newInterpreter, newFrame, interpreter]
          have root : Misses (m.frames.push {}) c.1 m.frames.size :=
            .root (Nat.ne_of_gt (h.holds.lt_size hp)) (by simp) (by rw [new])
          exact globals ▸ root
        · simp_all [CompiledUnit.ok]
      · refine fits_give (sound_warn ?_ _) _
        exact h

lemma Concludes.fits {arguments place} {n} (hc : Concludes arguments place m n) (h : m.Sound d x) :
    n.Fits d x := by
  induction hc with
  | datum m => exact fits_give h _
  | array m => exact fits_giveArray h _
  | input m => exact fits_convert h _ place fun _ _ hk => fits_give hk _
  | raise m hf => exact fits_raise h hf place
  | warn w _ ih => exact ih (sound_warn h w)
  | world _ _ _ ih => exact ih h

lemma fits_callBuiltin (h : m.Sound d x) (b arguments place) :
    (m.callBuiltin b arguments place).Fits d x := by
  by_cases hb : b = .evaluate
  · subst hb
    exact fits_evaluateText h _ place
  · exact (concludes_callBuiltin m hb arguments place).fits h

/-! ### Calls -/

lemma fits_enter (h : m.Sound d x) {c : Closure} {arguments : List Value}
    (code : DynScript.Fits d m.frames c.frame noTarget c.code.expr)
    (ha : arguments.length = c.code.params.length) (self place) :
    (m.enter c self arguments place).Fits d x := by
  unfold enter
  dsimp only [newFrame, updateInterpreter]
  split
  · exact fits_raise (f := .tooDeep _ _) h trivial place
  · refine ⟨.pend ?_ ?_, ?_⟩
    · refine DynScript.Sound.update (f := fun i => { i with depth := i.depth + 1 })
        (h.push fun r hr => ?_) c.owner fun _ => rfl
      cases hr
      exact code.lt_size
    · trivial
    · refine code.push (W := c.code.self.toList ++ c.code.params) rfl (fun slot hs => ?_)
        (fun V hb => ?_) fun hl => ?_
      · rcases mem_append.1 hs with hs | hs
        · exact Frame.isSome_get?_of_mem _ (mem_append_right _ (mem_map_of_mem hs))
        · obtain ⟨k, hk, rfl⟩ := getElem_of_mem hs
          have hz : k < (c.code.params.zip arguments).length := by simp [ha, hk]
          have := mem_map_of_mem (f := fun (p : Slot × Value) => (p.1.id, p.2))
            (getElem_mem hz)
          rw [getElem_zip] at this
          exact Frame.isSome_get?_of_mem _ (mem_append_left _ this)
      · simpa [Bound, FunctionCode.expr, Expr.Bound, Stmt.Bound] using hb
      · simp only [Lands, FunctionCode.expr, Expr.Lands, Stmt.Lands] at hl ⊢
        exact hl.mono fun id hid => .inl hid

lemma length_of_mapM {α β : Type} {f : α → HeapM β} {l : List α} {bs} {h k}
    (hm : l.mapM f h = .ok bs k) : bs.length = l.length := by
  induction l generalizing bs h with
  | nil => cases hm; rfl
  | cons a l ih =>
    rw [mapM_cons] at hm
    change EStateM.bind (f a) _ h = _ at hm
    unfold EStateM.bind at hm
    split at hm
    · rename_i b k' hb
      change EStateM.bind (l.mapM f) _ k' = _ at hm
      unfold EStateM.bind at hm
      split at hm
      · rename_i bs' k'' hbs
        cases hm
        simp [ih hbs]
      · cases hm
    · cases hm

lemma fits_callHost (hh : rules.host.Tame) (h : m.Sound d x) (symbol bound arguments place) :
    (m.callHost rules symbol bound arguments place).Fits d x := by
  obtain ⟨hk, he⟩ := hh symbol bound arguments m.heap
  unfold callHost
  cases hr : rules.host.call symbol bound arguments m.heap with
  | mk answer k =>
    rw [hr] at hk he
    have hs := h.keeps hk
    dsimp only
    cases answer with
    | value v => exact fits_convert (m := { m with heap := k }) hs v place fun _ _ hk => fits_give hk _
    | error e =>
      refine fits_fail (m := { m with heap := k }) hs ?_
      rw [RuntimeError.fault_withLocation]
      exact he e rfl
    | invoke f arguments => exact ⟨hs.pend trivial, trivial⟩

lemma fits_call (hh : rules.host.Tame) (h : m.Sound d x) {c}
    (hc : ∀ f, c = .closure f → DynScript.Fits d m.frames f.frame noTarget f.code.expr)
    (self arguments place) : (m.call rules c self arguments place).Fits d x := by
  unfold call
  split
  · exact fits_raise (f := .tooFewArguments _ _ _) h trivial place
  · rename_i few
    refine fits_onHeap h (.mapM Value.tame_convert _) place fun bs k hm hk => ?_
    cases c with
    | closure f =>
      have hl := length_of_mapM hm
      refine fits_enter (m := { m with heap := k }) hk (hc f rfl) ?_ self place
      simp only [Callable.arity] at few
      simp [Callable.accepted, Callable.variadic, Callable.arity]
      omega
    | native f =>
      dsimp only
      split
      · exact fits_callBuiltin (m := { m with heap := k }) hk _ _ place
      · exact fits_callHost (m := { m with heap := k }) hh hk _ _ _ place

lemma fits_apply (hh : rules.host.Tame) (h : m.Sound d x) (callee arguments place) :
    (m.apply rules callee arguments place).Fits d x := by
  unfold apply
  split
  · exact fits_call hh h (fun f hf => by cases hf) _ _ place
  · split
    · exact fits_raise h (Value.decent_kind _ _ ‹_›) place
    · split
      · rename_i r _
        exact fits_call hh h (fun f hf => h.heap f ⟨r, hf⟩) _ _ place
      · exact fits_raise (f := .uncallable _) h trivial place

section

variable (h : m.Sound d x)
include h

lemma fits_evalArguments (callee before) {rest}
    (hr : DynScript.Fits d m.frames frame noTarget rest) (place) :
    (m.evalArguments callee before rest frame place).Fits d x := by
  unfold evalArguments
  split
  · exact ⟨h, trivial⟩
  · exact fits_eval h (hr.member mem_cons_self) hr.tail

/-! ### Assignments -/

lemma fits_storeVariable {c} (hc : ∀ p ∈ d.apart, c ≠ p.1) (v place) :
    (m.storeVariable c v place).Fits d x := by
  refine fits_convert h v place fun w k hk => fits_give ?_ w
  exact hk.modify (.set m.frames c.frame c.id w) Array.size_modify (hk.holds.set hc w)

lemma fits_update {u place} {current : Heap → Except Fault Value}
    {pending : Option (BinaryOp × Value) → Pending} {store : Machine → Value → Machine}
    (hu : DynScript.Fits d m.frames frame noTarget u) (hc : ∀ h, Decent (current h))
    (hp : ∀ old, (pending old).Fits d m.frames m.stack) (hs : ∀ v, (store m v).Fits d x) :
    (m.update u frame place current pending store).Fits d x := by
  unfold update
  cases u with
  | set e =>
    refine fits_eval h (hu.part (fun V hb => ?_) fun hl => ?_) (hp _)
    · simpa only [Bound, Update.Bound] using hb
    · simpa only [Lands, Update.Lands] using hl
  | combine op e =>
    dsimp only
    split
    · refine fits_eval h (hu.part (fun V hb => ?_) fun hl => ?_) (hp _)
      · simpa only [Bound, Update.Bound] using hb
      · simpa only [Lands, Update.Lands] using hl
    · exact fits_raise h (hc _ _ ‹_›) place
  | step op =>
    dsimp only
    split
    · split
      · exact hs _
      · exact fits_raise h (Heap.decent_unary _ _ _ _ ‹_›) place
    · exact fits_raise h (hc _ _ ‹_›) place

lemma fits_storeIndex (container index v place) :
    (m.storeIndex container index v place).Fits d x :=
  fits_onHeap h (container.tame_setIndex index v) place fun _ _ _ hk => fits_give hk _

lemma fits_storeField (container key v place) : (m.storeField container key v place).Fits d x :=
  fits_onHeap h (container.tame_setField key v) place fun _ _ _ hk => fits_give hk _

lemma fits_evalFields (record) {rest} (hr : DynScript.Fits d m.frames frame noTarget rest) (place) :
    (m.evalFields record rest frame place).Fits d x := by
  unfold evalFields
  split
  · exact fits_give h _
  · exact fits_eval h (hr.member mem_cons_self).snd hr.tail

/-! ### Expressions -/

lemma fits_withCell {slot place} {next : Cell → Machine}
    (hs : d.strict → ∃ V, slot ∈ V ∧ d.Sees m.frames frame V)
    (hn : ∀ c, (∀ p ∈ d.apart, c ≠ p.1) → (next c).Fits d x) :
    (m.withCell slot frame place next).Fits d x := by
  unfold withCell
  split
  · rename_i c hc
    refine hn c fun p hp => ?_
    obtain ⟨V, hm, hV⟩ := hs (.inr (Option.isSome_of_mem hp))
    exact hV.ne hm hc p hp
  · rename_i hc
    refine ⟨h, fun hd => ?_, nofun⟩
    obtain ⟨V, hm, hV⟩ := hs (.inl hd)
    have := isSome_cell? h.rooted (hV.covers hd) hm
    rw [hc] at this
    cases this

lemma fits_stepEval {e} (he : DynScript.Fits d m.frames frame noTarget e) :
    (m.stepEval rules e frame).Fits d x := by
  -- The code that an expression is made of, as one piece.
  have part {β : Type} [Code β] {b : β} (hb : ∀ V, e.Bound V → Bound V b)
      (hl : e.Lands → Lands noTarget b) : DynScript.Fits d m.frames frame noTarget b :=
    he.part hb hl
  unfold stepEval
  cases e with
  | literal value place => exact fits_give h _
  | read slot place =>
    refine fits_withCell h (fun hd => ?_) fun _ _ => fits_give h _
    simpa only [Bound, Expr.Bound] using he.bound hd
  | box inner | unbox inner =>
    simp only [Expr.Bound, Expr.Lands] at part
    exact fits_eval h (part (fun _ => id) id) trivial
  | array items place =>
    simp only [Expr.Bound, Expr.Lands] at part
    have hi : DynScript.Fits d m.frames frame noTarget items := part (fun _ => id) id
    cases items with
    | nil => exact fits_giveArray h _
    | cons item rest => exact fits_eval h (hi.member mem_cons_self) hi.tail
  | record fields self place =>
    refine fits_onHeap h (.make fun _ => .of_functions_eq rfl) _ fun r k _ hk => ?_
    refine fits_evalFields (.push hk ?_) r (he.push (W := [self]) rfl ?_ (fun V hb => ?_) fun hl => ?_)
      place
    · intro r hr
      cases hr
      exact he.lt_size
    · intro slot hs
      cases mem_singleton.1 hs
      exact Frame.isSome_get?_of_mem _ mem_cons_self
    · simp only [Bound, Expr.Bound] at hb ⊢
      exact fun f hf => ⟨trivial, hb f.1 f.2 hf⟩
    · simp only [Lands, Expr.Lands] at hl ⊢
      exact fun f hf => ⟨trivial, hl f.1 f.2 hf⟩
  | function name params body exit self place =>
    dsimp only
    rw [onHeap_eq]
    refine ⟨{ h with heap := ?_ }, trivial⟩
    rintro c ⟨r, hr⟩
    change (m.heap.newFunction _).2.function r = _ at hr
    rw [Heap.function_newFunction] at hr
    split at hr
    · cases hr
      refine he.part (fun V hb => ?_) fun hl => ?_
      · simpa only [Bound, FunctionCode.expr, Expr.Bound] using hb
      · simpa only [Lands, FunctionCode.expr, Expr.Lands] using hl
    · exact h.heap c ⟨r, hr⟩
  | binary op left right place =>
    simp only [Expr.Bound, Expr.Lands] at part
    have hp : DynScript.Fits d m.frames frame noTarget (left, right) := part (fun _ => id) id
    exact fits_eval h hp.fst hp.snd
  | logical op left right place =>
    simp only [Expr.Bound, Expr.Lands] at part
    have hp : DynScript.Fits d m.frames frame noTarget (left, right) := part (fun _ => id) id
    exact fits_eval h hp.fst hp.snd
  | unary op operand place =>
    simp only [Expr.Bound, Expr.Lands] at part
    exact fits_eval h (part (fun _ => id) id) trivial
  | ternary condition first second place =>
    simp only [Expr.Bound, Expr.Lands] at part
    have hp : DynScript.Fits d m.frames frame noTarget (condition, first, second) :=
      part (fun _ => id) id
    exact fits_eval h hp.fst hp.snd
  | assignVariable slot u place =>
    simp only [Expr.Bound, Expr.Lands] at part
    refine fits_withCell h (fun hd => ?_) fun c hc => ?_
    · obtain ⟨V, hb, hV⟩ := he.bound hd
      simp only [Bound, Expr.Bound] at hb
      exact ⟨V, hb.1, hV⟩
    · exact fits_update h (part (fun _ => And.right) id) (fun _ => .pure _) (fun _ => hc)
        fun v => fits_storeVariable h hc v place
  | assignIndex container key u place | assignField container key u place =>
    simp only [Expr.Bound, Expr.Lands] at part
    have hp : DynScript.Fits d m.frames frame noTarget (container, key, u) :=
      part (fun _ => id) id
    exact fits_eval h hp.fst hp.snd
  | call callee arguments place =>
    simp only [Expr.Bound, Expr.Lands] at part
    have hp : DynScript.Fits d m.frames frame noTarget (callee, arguments) := part (fun _ => id) id
    exact fits_eval h hp.fst hp.snd
  | native name f arguments place =>
    simp only [Expr.Bound, Expr.Lands] at part
    exact fits_evalArguments h _ _ (part (fun _ => id) id) place
  | index container key place | field container key place =>
    simp only [Expr.Bound, Expr.Lands] at part
    have hp : DynScript.Fits d m.frames frame noTarget (container, key) := part (fun _ => id) id
    exact fits_eval h hp.fst hp.snd

/-! ### Statements -/

lemma fits_nextRound {condition body step exit next}
    (hp : (Pending.loopBody condition body step exit next frame).Fits d m.frames m.stack) :
    (m.nextRound condition body step exit next frame).Fits d x := by
  have hl : DynScript.Fits d m.frames frame _ (condition, step, body) := hp
  unfold nextRound
  split
  · exact fits_eval h (hl.part (fun _ hb => hb.2.1 _ rfl) fun hb => hb.2.1 _ rfl) hp
  · exact fits_eval h (hl.part (fun _ => And.left) And.left) hp

lemma fits_stepExec {s} (hs : DynScript.Fits d m.frames frame (Owned · m.stack) s) :
    (m.stepExec s frame).Fits d x := by
  have part {β : Type} [Code β] {b : β} {T : Nat → Prop} (hb : ∀ V, s.Bound V → Bound V b)
      (hl : s.Lands (Owned · m.stack) → Lands T b) : DynScript.Fits d m.frames frame T b :=
    hs.part hb hl
  unfold stepExec
  cases s with
  | expression e place =>
    simp only [Stmt.Bound, Stmt.Lands] at part
    exact ⟨h, part (fun _ => id) id⟩
  | declare slot initial place =>
    simp only [Stmt.Bound, Stmt.Lands] at part
    refine fits_eval h (part (fun _ => And.right) id) (part (fun V hb => ?_) fun _ => ?_)
    · simpa only [Bound, Expr.Bound] using hb.1
    · simp only [Lands, Expr.Lands]
  | print e place =>
    simp only [Stmt.Bound, Stmt.Lands] at part
    exact fits_eval h (part (fun _ => id) id) trivial
  | block b =>
    cases b with
    | mk statements slots place =>
      simp only [Stmt.Bound, Stmt.Lands, Block.Bound, Block.Lands] at part
      dsimp only
      split
      · rename_i he
        have he : slots = [] := by simpa [Block.slots] using he
        subst he
        exact fits_runStatements h (fun _ => id) (part (fun _ => id) id)
      · refine fits_runStatements (.push h ?_) (fun _ => id) (hs.push (W := slots) ?_ ?_ ?_ ?_)
        · intro r hr
          rw [Frame.fresh, Frame.parent_extend] at hr
          cases hr
          exact hs.lt_size
        · exact Frame.parent_extend _ _
        · exact fun slot hs => Frame.isSome_get?_extend_self _ hs
        · intro V hb
          simp only [Bound, Stmt.Bound, Block.Bound] at hb
          exact hb
        · intro hl
          simp only [Lands, Stmt.Lands, Block.Lands] at hl
          exact hl
  | branch condition first second place =>
    simp only [Stmt.Bound, Stmt.Lands] at part
    exact fits_eval h (part (fun _ => And.left) And.left) (part (fun _ => And.right) And.right)
  | loop condition body step exit next place =>
    simp only [Stmt.Bound, Stmt.Lands] at part
    refine fits_eval h (part (fun _ => And.left) And.left) (part (fun _ hb => ?_) fun hl => ?_)
    · exact ⟨hb.1, hb.2.2, hb.2.1⟩
    · exact ⟨hl.1, hl.2.2, hl.2.1⟩
  | jump target value place =>
    simp only [Stmt.Bound, Stmt.Lands] at part
    have lands : d.clean → Owned target.id m.stack := fun hd => by
      have := hs.lands hd
      simp only [Lands, Stmt.Lands] at this
      exact this.1
    cases value with
    | none => exact ⟨h, lands⟩
    | some e =>
      exact fits_eval h (part (fun _ hb => hb e rfl) fun hl => hl.2 e rfl) lands
  | label target place => exact fits_give h _

/-! ### Values, jumps and errors -/

lemma sound_leaveCall (owner caller) : (m.leaveCall owner caller).Sound d x :=
  h.update owner (f := fun i => { i with depth := i.depth - 1 }) fun _ => rfl

lemma fits_resume (hp : p.Fits d m.frames m.stack) (v) : (m.resume rules p v).Fits d x := by
  unfold resume
  cases p with
  | box place =>
    dsimp only
    split
    · exact fits_give h v
    · exact fits_convert h v place fun _ _ hk => fits_give hk _
  | unbox | discard | site => exact fits_give h _
  | arrayItem before rest frame place =>
    refine fits_convert h v place fun w k hk => ?_
    cases rest with
    | nil => exact fits_giveArray (m := { m with heap := k }) hk _
    | cons e rest =>
      exact fits_eval (m := { m with heap := k }) hk
        (DynScript.Fits.member hp mem_cons_self) (DynScript.Fits.tail hp)
  | recordField record name rest frame place =>
    refine fits_convert h v place fun w k hk => ?_
    refine fits_onHeap (m := { m with heap := k }) hk ?_ none fun _ k _ hk => ?_
    · exact .modifying fun _ => .of_functions_eq rfl
    · exact fits_evalFields (m := { m with heap := k }) hk record hp place
  | binaryLeft op right frame place => exact fits_eval h hp trivial
  | binaryRight op left place => exact fits_look h (fun k => k.decent_binary op left v) place
  | logicalLeft op right frame =>
    dsimp only
    split
    · exact fits_give h _
    · exact fits_give h _
    · exact fits_eval h hp trivial
  | logicalRight op left => exact fits_give h _
  | unary op place => exact fits_look h (fun k => k.decent_unary op v) place
  | ternary first second frame =>
    refine ⟨h, ?_⟩
    dsimp only
    split
    · exact DynScript.Fits.fst hp
    · exact DynScript.Fits.snd hp
  | storeVariable c old place =>
    dsimp only
    split
    · exact fits_storeVariable h hp _ place
    · exact fits_raise h (decent_updated _ _ _ _ ‹_›) place
  | assignIndexContainer key u frame place | assignFieldContainer key u frame place =>
    exact fits_eval h (DynScript.Fits.fst hp) (DynScript.Fits.snd hp)
  | assignIndex container u frame place =>
    exact fits_update h hp (fun k => container.decent_getIndex k v) (fun _ => trivial)
      fun new => fits_storeIndex h container v new place
  | assignField container u frame place =>
    exact fits_update h hp (fun k => container.decent_getField k v) (fun _ => trivial)
      fun new => fits_storeField h container v new place
  | storeIndex container key old place | storeField container key old place =>
    dsimp only
    split
    · first
      | exact fits_storeIndex h container key _ place
      | exact fits_storeField h container key _ place
    · exact fits_raise h (decent_updated _ _ _ _ ‹_›) place
  | callee arguments frame place => exact fits_evalArguments h _ _ hp place
  | argument callee before rest frame place => exact fits_evalArguments h _ _ hp place
  | indexContainer index frame place => exact fits_eval h hp trivial
  | index container place => exact fits_look h (fun k => container.decent_getIndex k v) place
  | fieldContainer key frame place => exact fits_eval h hp trivial
  | field container place => exact fits_look h (fun k => container.decent_getField k v) place
  | declare slot frame place =>
    refine fits_withCell h (fun hd => ?_) fun c hc => fits_give ?_ _
    · simpa only [Bound, Expr.Bound] using DynScript.Fits.bound hp hd
    · exact h.modify (.set m.frames c.frame c.id v) Array.size_modify (h.holds.set hc v)
  | print place => exact fits_withText h v place fun _ => ⟨h, trivial⟩
  | block b rest frame =>
    cases rest with
    | nil => exact fits_give h v
    | cons s rest =>
      exact fits_exec h (hp.2.member (hp.1 s mem_cons_self))
        ⟨fun x hx => hp.1 x (mem_cons_of_mem _ hx), hp.2⟩
  | branch first second frame =>
    have hb : DynScript.Fits d m.frames frame (Owned · (.discard :: m.stack)) (first, second) :=
      DynScript.Fits.retarget hp fun id hid => .inr ⟨trivial, hid⟩
    dsimp only
    split
    · exact fits_exec h hb.fst trivial
    · split
      · exact fits_exec h (hb.part (fun _ hb => hb.2 _ rfl) fun hl => hl.2 _ rfl) trivial
      · exact fits_give h _
  | loopTest condition body step exit next frame =>
    dsimp only
    split
    · refine fits_exec h (DynScript.Fits.part hp (fun _ hb => hb.2.2) fun hl => ?_) hp
      refine hl.2.2.mono fun id hid => ?_
      rcases hid with hid | hid | hid
      · exact .inl (.inl hid)
      · exact .inl (.inr hid)
      · exact .inr ⟨trivial, hid⟩
    · exact fits_give h _
  | loopBody condition body step exit next frame => exact fits_nextRound h hp
  | loopStep condition body step exit next frame =>
    exact fits_eval h (DynScript.Fits.part hp (fun _ => And.left) And.left) hp
  | jumpValue target => exact ⟨h, hp⟩
  | call exit owner caller place => exact fits_give (sound_leaveCall h owner caller) _
  | run caller =>
    exact fits_convert (m := m.leaveRun caller) h v none fun _ _ hk => fits_give hk _

lemma fits_jumpThrough (hp : p.Fits d m.frames m.stack) {target} {v}
    (hm : m.control = .jump target v) (ho : d.clean → Owned target.id (p :: m.stack)) :
    (m.jumpThrough p target v).Fits d x := by
  have passed (hs : d.clean → Owned target.id m.stack) : m.Fits d x := ⟨h, by rwa [hm]⟩
  unfold jumpThrough
  cases p with
  | block b rest frame =>
    dsimp only
    split
    · rename_i rest' hr
      exact fits_runStatements h (Block.subset_of_afterLabel hr)
        (hp.2.retarget fun _ => owned_block.1)
    · rename_i hr
      refine passed fun hd => (owned_block.1 (ho hd)).resolve_left fun hl => ?_
      rw [Block.resumeAt, ← Option.not_isSome_iff_eq_none, Block.isSome_afterLabel] at hr
      exact hr hl
  | loopBody condition body step exit next frame =>
    dsimp only
    split
    · exact fits_give h _
    · split
      · exact fits_nextRound h hp
      · refine passed fun hd => ?_
        rcases ho hd with (hid | hid) | ⟨-, hid⟩
        · contradiction
        · contradiction
        · exact hid
  | call exit owner caller place =>
    dsimp only
    split
    · exact fits_convert (m := m.leaveCall owner caller) (sound_leaveCall h owner caller) v place
        fun _ _ hk => fits_give hk _
    · rename_i hne
      refine ⟨sound_leaveCall h owner caller, ?_⟩
      change Control.Fits d _ _ m.control
      rw [hm]
      exact fun hd => (ho hd).elim (absurd · hne) fun hs => hs.1.elim
  | run caller =>
    exact ⟨h, nofun, fun hd => (ho hd).elim False.elim fun hs => hs.1.elim⟩
  | discard => exact passed fun hd => (ho hd).elim False.elim And.right
  | _ => exact passed fun hd => (ho hd).elim False.elim fun hs => hs.1.elim

lemma fits_raiseThrough (p) {e} (hm : m.control = .raise e)
    (he : (Control.raise e).Fits d m.frames m.stack) : (m.raiseThrough p e).Fits d x := by
  have passed {n : Machine} (hn : n.Sound d x) (hc : n.control = m.control) : n.Fits d x :=
    ⟨hn, by rw [hc, hm]; exact he⟩
  unfold raiseThrough
  split
  · exact passed (sound_leaveCall h _ _) rfl
  · exact passed h rfl
  · refine ⟨h, ?_⟩
    simpa only [go, Control.Fits, RuntimeError.fault_withLocation] using he
  · exact passed h rfl

end

/-! ### Steps -/

/-- **A step keeps the code well scoped.** -/
theorem fits_step (hh : rules.host.Tame) (h : m.Fits d x) : (m.step rules).Fits d x := by
  have hc := h.control
  have popped {p : Pending} {stack : List Pending} (hs : m.stack = p :: stack) :
      DynScript.Sound d x m.frames m.heap m.interpreters stack ∧ p.Fits d m.frames stack := by
    have sound : DynScript.Sound d x m.frames m.heap m.interpreters m.stack := h.sound
    rw [hs] at sound
    exact ⟨sound.pop, sound.stack.1⟩
  unfold step
  split
  · rename_i hm
    rw [hm] at hc
    exact fits_stepEval h.sound hc
  · rename_i hm
    rw [hm] at hc
    exact fits_stepExec h.sound hc
  · exact fits_apply hh h.sound _ _ _
  · split
    · exact h
    · rename_i p stack hs
      exact fits_resume (m := { m with stack := stack }) (popped hs).1 (popped hs).2 _
  · rename_i hm
    split
    · exact h
    · rename_i p stack hs
      rw [hm, hs] at hc
      exact fits_jumpThrough (m := { m with stack := stack }) (popped hs).1 (popped hs).2 hm hc
  · rename_i hm
    split
    · exact h
    · rename_i p stack hs
      rw [hm] at hc
      exact fits_raiseThrough (m := { m with stack := stack }) (popped hs).1 p hm hc

end Machine

end DynScript

import DynScript.Proofs.LocatedErrors
import DynScript.Proofs.Settling

/-!
# Loops with a step

A loop with a step goes round by round: it tests its condition, executes its body and evaluates its
step.  A body that is left by a jump to the end of the round counts as one that has come to its end.
-/

namespace DynScript

open List Machine

/-! ### Outcomes of the parts -/

namespace Control

/-- Whether a true value is given. -/
def isTrue : Control → Bool
  | .give v => v.isTrue
  | _ => false

/-- What a loop comes to when its test has come to this and is not true. -/
def ended : Control → Control
  | .give _ => .give .nothing
  | c => c

/-- A body that has come to this has come to the end of its round. -/
def goesOn (exit next : Label) : Control → Bool
  | .give _ => true
  | .jump target _ => target.id ≠ exit.id && target.id = next.id
  | _ => false

/-- What a loop comes to when its body has come to this and the round has not come to its end. -/
def left (exit : Label) : Control → Control
  | .jump target v => if target.id = exit.id then .give .nothing else .jump target v
  | c => c

end Control

/-- The parts of a loop that has a step. -/
structure SteppedLoop where
  condition : Expr
  body : Stmt
  step : Expr
  exit : Label
  next : Label

namespace SteppedLoop

/-- The loop as a statement. -/
def stmt (l : SteppedLoop) (place : Location) : Stmt :=
  .loop l.condition l.body (some l.step) l.exit l.next place

/-- The block of the body and then the step. -/
def bodyAndStep (l : SteppedLoop) (p q : Location) : Block :=
  .mk [l.body, .expression l.step p] [] q

/-- The loop without a step, whose body is followed by the step instead. -/
def expansion (l : SteppedLoop) (p q place : Location) : Stmt :=
  .loop l.condition (.block (l.bodyAndStep p q)) none l.exit l.next place

section

open Parse Grammar

variable {c : ParseContext} {g : Grammar}

/-- **What the parser makes of a `for` with a step**, whose parts it reads in their order. -/
theorem gives_forStatement (keyword) (s) : (g.forStatement keyword).Gives c s
    fun a _ => ∃ s₁ init s₂ condition s₃ x s₄ step s₅ y s₆ body s₇ exit next,
      g.forInitial.run c s₁ = .ok init s₂ ∧ (g.forCondition keyword).run c s₂ = .ok condition s₃ ∧
      Takes s₃ x s₄ ∧ g.forStep.run c s₄ = .ok step s₅ ∧ Takes s₅ y s₆ ∧
      g.statement.run c s₆ = .ok body s₇ ∧ ∀ e ∈ step, a = withInitial init
        (stmt ⟨condition, body, e, exit, next⟩ keyword.location) s₇.scopes.current.slots keyword.location := by
  refine .inScope (.bind (.self _ _) fun exit _ _ => .bind (.self _ _) fun next _ _ => .expect fun _ s₁ _ _ =>
    .bind (.self _ _) fun init _ hi => .bind (.self _ _) fun condition _ hc => .expect fun _ _ _ hx =>
    .bind (.self _ _) fun step _ hs => .expect fun _ _ _ hy => .bind (.self _ _) fun body s₇ hb =>
    .seen run_currentSlots (.pure ?_))
  refine ⟨_, _, _, _, _, _, _, _, _, _, _, _, _, exit, next, hi, hc, hx, hs, hy, hb, fun e he => ?_⟩
  cases he
  rfl

/-- **What the parser makes of a `while`** over a block of a body and a step. -/
theorem gives_whileStatement (keyword) (s) : (g.whileStatement keyword).Gives c s
    fun a _ => ∃ s₁ condition s₂ x s₃ body s₄ exit next, g.conditional.run c s₁ = .ok condition s₂ ∧
      Takes s₂ x s₃ ∧ g.statement.run c s₃ = .ok body s₄ ∧
      ∀ b e p q, body = .block (.mk [b, .expression e p] [] q) →
        a = expansion ⟨condition, b, e, exit, next⟩ p q keyword.location := by
  refine .inScope (.bind (.self _ _) fun exit _ _ => .bind (.self _ _) fun next _ _ => .expect fun _ s₁ _ _ =>
    .bind (.self _ _) fun condition _ hc => .expect fun _ _ _ hx => .bind (.self _ _) fun body _ hb => .pure ?_)
  exact ⟨_, _, _, _, _, _, _, exit, next, hc, hx, hb, fun b e p q he => by rw [he]; rfl⟩

end

/-- **What a loop does.**  In each round the condition is tested, the body is executed and the step is
evaluated, once each and in this order, and each part works on what the part before it has left.  The loop
ends with a test that is not true, with a body that is left by anything but a jump to the end of the
round, or with a step that fails. -/
inductive Rounds (rules : Rules) (l : SteppedLoop) (frame : Ref) : Machine → Machine → Prop where
  | ends {m r : Machine} (test : (m.alone (.eval l.condition frame)).ComesTo rules r)
    (hr : ¬ r.control.isTrue) : Rounds rules l frame m (r.alone r.control.ended)
  | leaves {m r b : Machine} (test : (m.alone (.eval l.condition frame)).ComesTo rules r)
    (hr : r.control.isTrue) (work : (r.alone (.exec l.body frame)).ComesTo rules b)
    (hb : ¬ b.control.goesOn l.exit l.next) : Rounds rules l frame m (b.alone (b.control.left l.exit))
  | fails {m r b s : Machine} (test : (m.alone (.eval l.condition frame)).ComesTo rules r)
    (hr : r.control.isTrue) (work : (r.alone (.exec l.body frame)).ComesTo rules b)
    (hb : b.control.goesOn l.exit l.next) (count : (b.alone (.eval l.step frame)).ComesTo rules s)
    (hs : ¬ s.control.isGiven) : Rounds rules l frame m s
  | again {m r b s z : Machine} (test : (m.alone (.eval l.condition frame)).ComesTo rules r)
    (hr : r.control.isTrue) (work : (r.alone (.exec l.body frame)).ComesTo rules b)
    (hb : b.control.goesOn l.exit l.next) (count : (b.alone (.eval l.step frame)).ComesTo rules s)
    (hs : s.control.isGiven) (rest : Rounds rules l frame s z) : Rounds rules l frame m z

/-! ### Ways of working on a loop -/

/-- What is pending while the condition, the body and the step of a loop are worked on hands their outcomes
on as the loop does.  `I` holds of all machines that are met. -/
structure Cycle (rules : Rules) (l : SteppedLoop) (frame : Ref) (I : Machine → Prop)
    (onTest onBody onStep : List Pending) : Prop where
  test : ∀ m r, I m → (m.alone (.eval l.condition frame)).ComesTo rules r → I r ∧
    (r.above onTest).Leads rules (if r.control.isTrue then (r.alone (.exec l.body frame)).above onBody
      else r.alone r.control.ended)
  work : ∀ m b, I m → (m.alone (.exec l.body frame)).ComesTo rules b → I b ∧
    (b.above onBody).Leads rules (if b.control.goesOn l.exit l.next then
      (b.alone (.eval l.step frame)).above onStep else b.alone (b.control.left l.exit))
  count : ∀ m s, I m → (m.alone (.eval l.step frame)).ComesTo rules s → I s ∧
    (s.above onStep).Leads rules (if s.control.isGiven then
      (s.alone (.eval l.condition frame)).above onTest else s)

variable {rules : Rules} {l : SteppedLoop} {frame : Ref} {I : Machine → Prop}
  {onTest onBody onStep : List Pending} {m n z : Machine}

lemma isSome_outcome?_ended (h : n.outcome?.isSome) :
    (n.alone n.control.ended).outcome?.isSome := by
  obtain ⟨c, rest, ⟨v, rfl⟩ | passing⟩ := exists_alone h
  · rw [rest]
    rfl
  · rw [rest] at h ⊢
    cases c <;> trivial

lemma isSome_outcome?_left (h : n.outcome?.isSome) (exit) :
    (n.alone (n.control.left exit)).outcome?.isSome := by
  obtain ⟨c, rest, ⟨v, rfl⟩ | passing⟩ := exists_alone h
  · rw [rest]
    rfl
  · rw [rest] at h ⊢
    cases c with
    | jump target v =>
      simp only [alone, Control.left]
      split <;> rfl
    | _ => trivial

section

variable (C : Cycle rules l frame I onTest onBody onStep)
include C

lemma Cycle.rounds (hm : I m) {k : Nat}
    (h : Machine.Settles rules k ((m.alone (.eval l.condition frame)).above onTest) z) :
    Rounds rules l frame m z := by
  induction k using Nat.strong_induction_on generalizing m with
  | h k ih =>
    obtain ⟨r, k₁, tested, lt₁, h⟩ := h.hand rfl fun r hr => (C.test m r hm hr).2
    have hr := (C.test m r hm tested).1
    split at h
    · rename_i holds
      obtain ⟨b, k₂, worked, lt₂, h⟩ := h.hand rfl fun b hb => (C.work r b hr hb).2
      have hb := (C.work r b hr worked).1
      split at h
      · rename_i on
        obtain ⟨s, k₃, counted, lt₃, h⟩ := h.hand rfl fun s hs => (C.count b s hb hs).2
        split at h
        · rename_i given
          exact .again tested holds worked on counted given
            (ih k₃ (by omega) (C.count b s hb counted).1 h)
        · rename_i fails
          obtain rfl := (comesTo_self counted.atRest).1 ⟨_, h⟩
          exact .fails tested holds worked on counted fails
      · rename_i off
        obtain rfl := (comesTo_self (isSome_outcome?_left worked.atRest _)).1 ⟨_, h⟩
        exact .leaves tested holds worked off
    · rename_i fails
      obtain rfl := (comesTo_self (isSome_outcome?_ended tested.atRest)).1 ⟨_, h⟩
      exact .ends tested fails

lemma Cycle.comesTo (hm : I m) (h : Rounds rules l frame m z) :
    ((m.alone (.eval l.condition frame)).above onTest).ComesTo rules z := by
  induction h with
  | ends test hr =>
    have goes := (C.test _ _ hm test).2
    rw [if_neg hr] at goes
    exact test.hand goes ((comesTo_self (isSome_outcome?_ended test.atRest)).2 rfl)
  | leaves test hr work hb =>
    obtain ⟨h, goes⟩ := C.test _ _ hm test
    have goes' := (C.work _ _ h work).2
    rw [if_pos hr] at goes
    rw [if_neg hb] at goes'
    exact test.hand goes (work.hand goes'
      ((comesTo_self (isSome_outcome?_left work.atRest _)).2 rfl))
  | fails test hr work hb count hs =>
    obtain ⟨h, goes⟩ := C.test _ _ hm test
    obtain ⟨h', goes'⟩ := C.work _ _ h work
    have goes'' := (C.count _ _ h' count).2
    rw [if_pos hr] at goes
    rw [if_pos hb] at goes'
    rw [if_neg hs] at goes''
    exact test.hand goes (work.hand goes' (count.hand goes''
      ((comesTo_self count.atRest).2 rfl)))
  | again test hr work hb count hs _ ih =>
    obtain ⟨h, goes⟩ := C.test _ _ hm test
    obtain ⟨h', goes'⟩ := C.work _ _ h work
    obtain ⟨h'', goes''⟩ := C.count _ _ h' count
    rw [if_pos hr] at goes
    rw [if_pos hb] at goes'
    rw [if_pos hs] at goes''
    exact test.hand goes (work.hand goes' (count.hand goes'' (ih h'')))

lemma Cycle.comesTo_iff (hm : I m) :
    ((m.alone (.eval l.condition frame)).above onTest).ComesTo rules z ↔ Rounds rules l frame m z :=
  ⟨fun ⟨_, h⟩ => C.rounds hm h, C.comesTo hm⟩

end

/-! ### The two loops -/

lemma leads_loopTest (rules) (hn : n.outcome?.isSome) (condition body step exit next frame) :
    (n.above [.loopTest condition body step exit next frame]).Leads rules
      (if n.control.isTrue then (n.alone (.exec body frame)).above
        [.loopBody condition body step exit next frame] else n.alone n.control.ended) := by
  obtain ⟨c, rest, ⟨v, rfl⟩ | passing⟩ := exists_alone hn
  · have handed : ((n.alone (.give v)).above [.loopTest condition body step exit next frame]).step
        rules = if v.isTrue then (n.alone (.exec body frame)).above
          [.loopBody condition body step exit next frame] else n.alone (.give .nothing) := rfl
    rw [rest]
    refine .step ?_
    rw [handed]
    exact .refl _
  · have still := leads_passing rules n passing (forall_mem_singleton.2
      (⟨fun _ _ _ => rfl, fun _ _ => rfl⟩ : (Pending.loopTest condition body step exit next frame).Clear))
    rw [rest]
    cases c with
    | jump | raise => exact still
    | _ => cases passing

lemma leads_loopBody (rules) (hn : n.outcome?.isSome) (condition body step exit next frame) :
    (n.above [.loopBody condition body step exit next frame]).Leads rules
      (if n.control.goesOn exit next then n.nextRound condition body step exit next frame
        else n.alone (n.control.left exit)) := by
  obtain ⟨c, rest, ⟨v, rfl⟩ | passing⟩ := exists_alone hn
  · rw [rest]
    exact .step (.refl _)
  · rw [rest]
    refine .step ?_
    cases c with
    | jump target v =>
      have handed : ((n.alone (.jump target v)).above
          [.loopBody condition body step exit next frame]).step rules =
            if target.id = exit.id then n.alone (.give .nothing)
            else if target.id = next.id then
              (n.alone (.jump target v)).nextRound condition body step exit next frame
            else n.alone (.jump target v) := rfl
      rw [handed, show (n.alone (.jump target v)).control = .jump target v from rfl, Control.goesOn,
        Control.left]
      by_cases exits : target.id = exit.id
      · simpa [exits] using Machine.Leads.refl _
      · by_cases continues : target.id = next.id
        · rw [continues] at exits ⊢
          simpa [exits] using Machine.Leads.refl _
        · simpa [exits, continues] using Machine.Leads.refl _
    | raise e => exact .refl _
    | _ => cases passing

lemma cycle_stmt (rules) (l : SteppedLoop) (frame) :
    l.Cycle rules frame (fun _ => True)
      [.loopTest l.condition l.body (some l.step) l.exit l.next frame]
      [.loopBody l.condition l.body (some l.step) l.exit l.next frame]
      [.loopStep l.condition l.body (some l.step) l.exit l.next frame] where
  test m r _ tested := ⟨trivial, leads_loopTest rules tested.atRest _ _ _ _ _ _⟩
  work m b _ worked := by
    have handed := leads_loopBody rules worked.atRest l.condition l.body (some l.step) l.exit l.next frame
    obtain ⟨c, rest, -⟩ := exists_alone worked.atRest
    rw [rest] at handed ⊢
    exact ⟨trivial, handed⟩
  count m s _ counted := by
    refine ⟨trivial, ?_⟩
    obtain ⟨c, rest, ⟨v, rfl⟩ | passing⟩ := exists_alone counted.atRest
    · rw [rest]
      exact .step (.refl _)
    · rw [rest]
      have still := leads_passing rules s passing
        (forall_mem_singleton.2 (⟨fun _ _ _ => rfl, fun _ _ => rfl⟩ : (Pending.loopStep l.condition
          l.body (some l.step) l.exit l.next frame).Clear))
      cases c with
      | jump | raise => exact still
      | _ => cases passing

end SteppedLoop

/-! ### What code leaves intact -/

/-- The number of the label that a statement declares. -/
def Stmt.labelId? : Stmt → Option Nat
  | .label target _ => some target.id
  | _ => none

/-- The numbers of the labels that a pending part is the owner of. -/
def Pending.ids : Pending → List Nat
  | .block b _ _ => b.statements.filterMap Stmt.labelId?
  | .loopBody _ _ _ exit next _ => [exit.id, next.id]
  | .call exit _ _ _ => [exit.id]
  | _ => []

lemma mem_ids_of_owned {id : Nat} {K} (h : Owned id K) : id ∈ K.flatMap Pending.ids := by
  induction K with
  | nil => exact h.elim
  | cons p K ih =>
    rw [flatMap_cons, mem_append]
    refine h.imp (fun owns => ?_) fun passes => ih passes.2
    cases p with
    | block b _ _ =>
      obtain ⟨target, place, among, rfl⟩ := owns
      exact mem_filterMap.2 ⟨_, among, rfl⟩
    | loopBody => exact owns.elim (· ▸ mem_cons_self) (· ▸ by simp [Pending.ids])
    | call => exact mem_singleton.2 owns
    | _ => exact owns.elim

/-- Something that jumps to the given numbers lead to, and no others. -/
def Pending.ground (L : List Nat) (frame : Ref) : Pending :=
  .block (.mk (L.map fun id => .label { (default : Label) with id := id } default) [] default) [] frame

lemma owned_ground {id : Nat} {L frame} : Owned id [.ground L frame] ↔ id ∈ L := by
  rw [Pending.ground, owned_block]
  simp [Owned, Stmt.LabelAmong, Block.statements]

namespace Machine

variable {rules : Rules} {m z : Machine} {frame : Ref}

/-- The code in heap and frames has no open jumps, and the frame is there. -/
structure Intact (m : Machine) (frame : Ref) : Prop where
  sound : DynScript.Sound ⟨⟨False, True⟩, none⟩ (fun _ => []) m.frames m.heap m.interpreters []
  lt_size : frame < m.frames.size

/-- **Code whose jumps lead to the given numbers leaves what is intact so**, and a jump out of it leads to
one of them. -/
theorem Intact.comesTo (hh : rules.host.Tame) (h : m.Intact frame) {L} {c}
    (hz : (m.alone c).ComesTo rules z)
    (hc : c.Fits ⟨⟨False, True⟩, none⟩ m.frames [.ground L frame]) :
    z.Intact frame ∧ ∀ t v, z.control = .jump t v → t.id ∈ L := by
  have ground : (Pending.ground L frame).Fits ⟨⟨False, True⟩, none⟩ m.frames [] := by
    refine ⟨fun s hs => (not_mem_nil hs).elim, h.lt_size, Charge.lax, fun _ s hs => ?_⟩
    obtain ⟨id, -, rfl⟩ := mem_map.1 hs
    simp only [Code.Lands, Stmt.Lands]
  have start : ((m.alone c).above [.ground L frame]).Fits ⟨⟨False, True⟩, none⟩ fun _ => [] :=
    ⟨h.sound.pend ground, hc⟩
  have ends := (hz.leads.above [.ground L frame]).keeps (P := Fits ⟨⟨False, True⟩, none⟩ fun _ => [])
    (fun _ => fits_step hh) start
  obtain ⟨k, rest, -⟩ := exists_alone hz.atRest
  rw [rest] at ends ⊢
  refine ⟨⟨ends.sound.pop, ends.sound.stack.1.2.lt_size⟩, fun t v jumps => ?_⟩
  have owned := ends.control
  obtain rfl : k = .jump t v := jumps
  exact owned_ground.1 (owned trivial)

end Machine

namespace SteppedLoop

variable {rules : Rules} {l : SteppedLoop} {frame : Ref} {m b z : Machine}

lemma resumeAt_bodyAndStep (h : (m.alone (.exec l.body frame)).ComesTo rules b) {t v}
    (hb : b.control = .jump t v) (p q) : (l.bodyAndStep p q).resumeAt t = none := by
  cases body : l.body with
  | label x place =>
    rw [body] at h
    have given : (m.alone (.exec (.label x place) frame)).Leads rules (m.alone (.give .nothing)) :=
      .step (.refl _)
    obtain rfl := (comesTo_self rfl).1 (given.comesTo.1 h)
    cases hb
  | _ => simp [bodyAndStep, Block.resumeAt, Block.statements, Block.afterLabel, body]

lemma cycle_expansion (rules : Rules) (hh : rules.host.Tame) {L : List Nat} (hc : l.condition.Lands)
    (hb : l.body.Lands (· ∈ L)) (hL : l.next.id ∉ L) (hs : l.step.Lands) (frame : Ref) (p q : Location) :
    l.Cycle rules frame (·.Intact frame)
      [.loopTest l.condition (.block (l.bodyAndStep p q)) none l.exit l.next frame]
      [.block (l.bodyAndStep p q) [.expression l.step p] frame,
        .loopBody l.condition (.block (l.bodyAndStep p q)) none l.exit l.next frame]
      [.block (l.bodyAndStep p q) [] frame,
        .loopBody l.condition (.block (l.bodyAndStep p q)) none l.exit l.next frame] where
  test m r hm tested := by
    refine ⟨(hm.comesTo hh tested (L := []) ⟨hm.lt_size, Charge.lax, fun _ => hc⟩).1, ?_⟩
    refine (leads_loopTest rules tested.atRest _ _ _ _ _ _).trans ?_
    split
    · exact .step (.refl _)
    · exact .refl _
  work m b hm worked := by
    obtain ⟨intact, lands⟩ := hm.comesTo hh worked (L := L)
      ⟨hm.lt_size, Charge.lax, fun _ => hb.mono fun _ => owned_ground.2⟩
    refine ⟨intact, ?_⟩
    have passed := leads_loopBody rules worked.atRest l.condition (.block (l.bodyAndStep p q)) none
      l.exit l.next frame
    have missed := fun t v hb => resumeAt_bodyAndStep worked (t := t) (v := v) hb p q
    obtain ⟨c, rest, ⟨v, rfl⟩ | passing⟩ := exists_alone worked.atRest
    · rw [rest]
      exact .step (.step (.refl _))
    · rw [rest] at passed lands missed ⊢
      cases c with
      | jump t v =>
        have off : ¬ (b.alone (.jump t v)).control.goesOn l.exit l.next := by
          have := ne_of_mem_of_not_mem (lands t v rfl) hL
          simp [alone, Control.goesOn, this]
        rw [if_neg off] at passed ⊢
        have same (m : Machine) := m.jumpThrough_of_none (missed t v rfl) [.expression l.step p] frame v
        have through := (congrArg (Machine.Leads rules · _) (same _)).mpr passed
        exact .step through
      | raise e => exact .step passed
      | _ => cases passing
  count m s hm counted := by
    obtain ⟨intact, lands⟩ := hm.comesTo hh counted (L := []) ⟨hm.lt_size, Charge.lax, fun _ => hs⟩
    refine ⟨intact, ?_⟩
    obtain ⟨c, rest, ⟨v, rfl⟩ | passing⟩ := exists_alone counted.atRest
    · rw [rest]
      exact .step (.step (.refl _))
    · rw [rest] at lands ⊢
      cases c with
      | jump t v => exact absurd (lands t v rfl) not_mem_nil
      | raise e => exact .step (.step (.refl _))
      | _ => cases passing

end SteppedLoop

/-- What a loop may begin with: a declaration or an expression. -/
def Stmt.IsInitial : Stmt → Prop
  | .declare .. | .expression .. => True
  | _ => False

namespace Stmt.IsInitial

variable {init loop : Stmt} {T U : Nat → Prop}

lemma lands (hi : init.IsInitial) (h : init.Lands T) : init.Lands U := by
  cases init with
  | expression | declare => simpa only [Stmt.Lands] using h
  | _ => cases hi

lemma resumeAt (hi : init.IsInitial) (hl : loop.labelId? = none) (t) {slots place} :
    (Block.mk [init, loop] slots place).resumeAt t = none := by
  rw [Block.resumeAt, ← Option.not_isSome_iff_eq_none, Block.isSome_afterLabel]
  rintro ⟨x, p, among, -⟩
  rcases mem_cons.1 among with rfl | among
  · exact hi
  · obtain rfl := mem_singleton.1 among
    cases hl

end Stmt.IsInitial

namespace Machine

variable {m : Machine} {frame : Ref}

lemma Intact.inside (h : m.Intact frame) (slots) :
    (m.inside slots frame).2.Intact (m.inside slots frame).1 := by
  unfold Machine.inside
  split
  · exact h
  · refine ⟨h.sound.push fun r hr => ?_, by simp [newFrame]⟩
    rw [Frame.fresh, Frame.parent_extend] at hr
    exact Option.some.inj hr ▸ h.lt_size

end Machine

namespace History

open Machine SteppedLoop

variable {host : Host}

/-- **A loop with a step is its expansion.**  Let a machine be about to execute a loop that begins with a
declaration or an expression and whose body does not jump to the end of the round.  The block of this
beginning and of the loop without a step, in which the body is followed by the step, comes to the same:
to the same value, jump or error, output and store.  With such jumps or without, a loop does what its
rounds say: before the condition is tested again, the step is evaluated once. -/
theorem for_loop (hh : host.Tame) (H : History host) {n : Nat} (clean : H.Clean n) {l : SteppedLoop}
    {init : Stmt} (hi : init.IsInitial) {slots : List Slot} {place place' : Location} {frame : Ref}
    (hm : (H.state n).control =
      .exec (Grammar.withInitial (some init) (l.stmt place) slots place') frame) :
    (l.body.Lands (· ≠ l.next.id) → ∀ p q r s z,
      ((H.state n).alone (.exec (Grammar.withInitial (some init) (l.stmt place) slots place')
        frame)).ComesTo host z ↔
      ((H.state n).alone (.exec (.block (.mk [init, l.expansion p q r] slots s)) frame)).ComesTo
        host z) ∧
    ∀ m f z, (m.alone (.exec (l.stmt place) f)).ComesTo host z ↔
      l.Rounds host f m z := by
  have rounds (m : Machine) (f : Ref) (z : Machine) :
      (m.alone (.exec (l.stmt place) f)).ComesTo host z ↔
        l.Rounds host f m z := by
    have tests : (m.alone (.exec (l.stmt place) f)).Leads host
        ((m.alone (.eval l.condition f)).above
          [.loopTest l.condition l.body (some l.step) l.exit l.next f]) := .step (.refl _)
    rw [tests.comesTo, (cycle_stmt _ l f).comesTo_iff trivial]
  refine ⟨fun hb p q r s z => ?_, rounds⟩
  have fits := H.fits hh clean
  generalize H.state n = m at hm fits ⊢
  have control := fits.control
  rw [hm] at control
  have intact : m.Intact frame := ⟨{ fits.sound with stack := trivial }, control.lt_size⟩
  have lands := control.lands trivial
  simp only [Grammar.withInitial, Code.Lands, Stmt.Lands, Block.Lands] at lands
  have first := lands init mem_cons_self
  have second := lands (l.stmt place) (mem_cons_of_mem _ mem_cons_self)
  simp only [stmt, Stmt.Lands] at second
  -- The jumps out of the body lead to finitely many numbers, and not to the end of the round.
  let b : Block := .mk [init, l.stmt place] slots place'
  let L := (l.exit.id :: (Pending.block b [] frame :: m.stack).flatMap Pending.ids).filter (· ≠ l.next.id)
  have jumps : l.body.Lands (· ∈ L) := by
    refine second.2.1.meet (fun id lands ne => mem_filter.2 ⟨?_, by simpa using ne⟩) hb
    rcases lands with rfl | rfl | owned
    · exact mem_cons_self
    · exact absurd rfl ne
    · exact mem_cons_of_mem _ (mem_ids_of_owned (owned_block.2 owned))
  have cycle := cycle_expansion host hh second.1 jumps (by simp [L])
    (second.2.2 _ rfl) (m.inside slots frame).1 p q
  rw [Grammar.withInitial, comesTo_pair fun t => hi.resumeAt rfl t,
    comesTo_pair fun t => hi.resumeAt rfl t]
  refine exists_congr fun i => and_congr_right fun started => ?_
  have still := (intact.inside slots).comesTo hh started (L := [])
    ⟨(intact.inside slots).lt_size, Charge.lax, fun _ => hi.lands first⟩
  have tests : (i.alone (.exec (l.expansion p q r) (m.inside slots frame).1)).Leads host
      ((i.alone (.eval l.condition (m.inside slots frame).1)).above [.loopTest l.condition
        (.block (l.bodyAndStep p q)) none l.exit l.next (m.inside slots frame).1]) := .step (.refl _)
  rw [rounds, ← cycle.comesTo_iff still.1, tests.comesTo]

lemma clean_running (host) {source} {u} (hu : (compile source {} .standard [] {}).result = .ok u)
    (ok : u.ok) (n : Nat) : (running host hu).Clean n := by
  intro k _ v hv i _
  cases k with
  | zero => cases hv
  | succ k => exact mem_singleton.1 hv ▸ ok

/-- The beginning and the loop that are about to be executed, if the body prints a variable. -/
def printLoop? : Control → Option (Stmt × SteppedLoop × List Slot × Location × Location)
  | .exec (.block (.mk [.declare slot e p, .loop condition (.print (.read x r) q) (some count) exit again
      place] slots place')) _ =>
    some (.declare slot e p, ⟨condition, .print (.read x r) q, count, exit, again⟩, slots, place, place')
  | _ => none

lemma eq_of_printLoop? {k} {init l} {slots place place'}
    (h : printLoop? k = some (init, l, slots, place, place')) :
    init.IsInitial ∧ (∃ x r q, l.body = .print (.read x r) q) ∧
      ∃ frame, k = .exec (Grammar.withInitial (some init) (l.stmt place) slots place') frame := by
  unfold printLoop? at h
  split at h
  · cases h
    exact ⟨trivial, ⟨_, _, _, rfl⟩, _, rfl⟩
  · cases h

/-- A loop that goes round twice, and its expansion. -/
theorem for_loop_twice : ∃ (H : History .none) (n : Nat) (init : Stmt) (l : SteppedLoop)
    (slots : List Slot) (place place' : Location) (frame : Ref) (z : Machine), (H.state n).control =
      .exec (.block (.mk [init, l.stmt place] slots place')) frame ∧ z.world.output = "0\n1\n" ∧
    ((H.state n).alone (.exec (.block (.mk [init, l.stmt place] slots place')) frame)).ComesTo {} z ∧
    ∀ p q, ((H.state n).alone (.exec (.block (.mk [init, l.expansion p q place] slots place'))
      frame)).ComesTo {} z := by
  have computed : (compile "for (var i = 0; i < 2; i += 1) print i;" {} .standard [] {}).result.toOption.any
      (fun u =>
        let m := ((initial .standard {} {} defaultLimit true).compile
          "for (var i = 0; i < 2; i += 1) print i;" {} []).2.atRest.startRun 0 u.program
        let z := (step {})^[60] (m.alone m.control)
        (u.ok && (printLoop? m.control).isSome) && (z.outcome?.isSome && z.world.output = "0\n1\n")) =
      true := by
    decide +kernel
  obtain ⟨u, hu, computed⟩ := (Option.any_eq_true _ _).1 computed
  simp only [Bool.and_eq_true, decide_eq_true_eq] at computed
  obtain ⟨⟨ok, parts⟩, ended, output⟩ := computed
  let H : History .none := running .none (eq_ok_of_toOption hu)
  obtain ⟨⟨init, l, slots, place, place'⟩, parts⟩ := Option.isSome_iff_exists.1 parts
  obtain ⟨initial, ⟨x, r, q, body⟩, frame, control⟩ := eq_of_printLoop? (k := (H.state 2).control) parts
  have jumps : l.body.Lands (· ≠ l.next.id) := by simp only [body, Stmt.Lands, Expr.Lands]
  obtain ⟨z, output, goes⟩ : ∃ z : Machine, z.world.output = "0\n1\n" ∧
      ((H.state 2).alone (H.state 2).control).ComesTo {} z := ⟨_, output, comesTo_iterate ended⟩
  rw [control] at goes
  have loop := for_loop Host.tame_none H (clean_running .none _ ok 2) initial control
  exact ⟨H, 2, init, l, slots, place, place', frame, z, control, output, goes, fun p q =>
    (loop.1 jumps p q place place' z).1 goes⟩

end History

end DynScript

import DynScript.Proofs.Endings
import DynScript.Proofs.Surroundings

/-!
# Parts that are worked on alone

A part of the code is worked on above what is pending, which takes no part in it.  So the machine does
the same as it does on this part alone, with nothing pending, and then hands the outcome on.

Main declarations: `Machine.Leads`, `Machine.comesTo_above`.
-/

namespace DynScript

namespace Machine

variable {rules : Rules} {m n z : Machine} {K : List Pending} {j k l : Nat}

/-- A machine with more pending below. -/
def above (m : Machine) (K : List Pending) : Machine :=
  m.amid { below := K }

/-- The machine with nothing to do but what the control says. -/
def alone (m : Machine) (c : Control) : Machine :=
  { m with control := c, stack := [] }

@[simp] lemma alone_alone (m : Machine) (c d) : (m.alone c).alone d = m.alone d :=
  rfl

lemma step_above (h : m.outcome? = none) (K) :
    (m.above K).step rules = (m.step rules).above K :=
  step_amid (.inl h) (Surroundings.admits_of_none rfl m _)

lemma outcome?_above (h : m.outcome? = none) (K) : (m.above K).outcome? = none := by
  by_cases stack : (m.above K).stack = []
  · have both := List.append_eq_nil_iff.1 stack
    have same : (m.above K).outcome? = m.outcome? := by
      unfold outcome?
      rw [stack, both.1]
      rfl
    rw [same, h]
  · exact outcome?_of_ne_nil stack

/-! ### Coming to rest -/

/-- The machine takes `k` steps from `m` to `n`, where it is at rest, and is not at rest before. -/
inductive Settles (rules : Rules) : Nat → Machine → Machine → Prop where
  | rest {n : Machine} (h : n.outcome?.isSome) : Settles rules 0 n n
  | step {k : Nat} {m n : Machine} (h : m.outcome? = none) (next : Settles rules k (m.step rules) n) :
    Settles rules (k + 1) m n

/-- A machine settles in some state. -/
def ComesTo (rules : Rules) (m n : Machine) : Prop :=
  ∃ k, Settles rules k m n

lemma Settles.atRest (h : Settles rules k m n) : n.outcome?.isSome := by
  induction h with
  | rest h => exact h
  | step _ _ ih => exact ih

lemma comesTo_step (h : m.outcome? = none) : m.ComesTo rules n ↔ (m.step rules).ComesTo rules n := by
  constructor
  · rintro ⟨_, settles⟩
    cases settles with
    | rest rest => simp [h] at rest
    | step _ next => exact ⟨_, next⟩
  · rintro ⟨k, settles⟩
    exact ⟨k + 1, .step h settles⟩

lemma comesTo_self (h : m.outcome?.isSome) : m.ComesTo rules n ↔ n = m := by
  constructor
  · rintro ⟨_, settles⟩
    cases settles with
    | rest _ => rfl
    | step rest _ => simp [rest] at h
  · rintro rfl
    exact ⟨0, .rest h⟩

/-! ### Getting on -/

/-- Some number of steps leads from a machine to another. -/
inductive Leads (rules : Rules) : Machine → Machine → Prop where
  | refl (m : Machine) : Leads rules m m
  | step {m n : Machine} (h : Leads rules (m.step rules) n) : Leads rules m n

lemma Leads.trans (h : m.Leads rules n) (hz : n.Leads rules z) : m.Leads rules z := by
  induction h with
  | refl => exact hz
  | step _ ih => exact .step (ih hz)

lemma Leads.keeps {P : Machine → Prop} (hp : ∀ m, P m → P (m.step rules)) (h : m.Leads rules n)
    (hm : P m) : P n := by
  induction h with
  | refl => exact hm
  | step _ ih => exact ih (hp _ hm)

lemma step_of_outcome (h : m.outcome?.isSome) : m.step rules = m := by
  obtain ⟨o, ho⟩ := Option.isSome_iff_exists.1 h
  exact step_of_nil (stack_of_outcome? ho) (takesUp_of_outcome? ho)

lemma Settles.leads (h : Settles rules k m z) (hn : m.Leads rules n) :
    ∃ j, j ≤ k ∧ Settles rules j n z := by
  induction hn generalizing k with
  | refl => exact ⟨k, Nat.le_refl k, h⟩
  | step _ ih =>
    cases h with
    | rest rest =>
      obtain ⟨j, le, settles⟩ := ih (by rw [step_of_outcome rest]; exact .rest rest)
      exact ⟨j, le, settles⟩
    | step running next =>
      obtain ⟨j, le, settles⟩ := ih next
      exact ⟨j, Nat.le_succ_of_le le, settles⟩

lemma Leads.comesTo (h : m.Leads rules n) : m.ComesTo rules z ↔ n.ComesTo rules z := by
  induction h with
  | refl => rfl
  | @step m n _ ih =>
    cases rest : m.outcome? with
    | some o => rw [← ih, step_of_outcome (by rw [rest]; rfl)]
    | none => rw [comesTo_step rest, ih]

lemma Leads.above (h : m.Leads rules n) (K) : (m.above K).Leads rules (n.above K) := by
  induction h with
  | refl => exact .refl _
  | @step m n _ ih =>
    cases rest : m.outcome? with
    | some o => rwa [step_of_outcome (by rw [rest]; rfl)] at ih
    | none => exact .step (step_above rest K ▸ ih)

lemma ComesTo.atRest (h : m.ComesTo rules n) : n.outcome?.isSome := by
  obtain ⟨k, h⟩ := h
  exact h.atRest

lemma ComesTo.leads (h : m.ComesTo rules n) : m.Leads rules n := by
  obtain ⟨k, h⟩ := h
  induction h with
  | rest _ => exact .refl _
  | step _ _ ih => exact .step ih

lemma comesTo_iterate {k : Nat} (h : ((step rules)^[k] m).outcome?.isSome) :
    m.ComesTo rules ((step rules)^[k] m) := by
  induction k generalizing m with
  | zero => exact (comesTo_self h).2 rfl
  | succ k ih => exact (Leads.step (.refl _)).comesTo.2 (ih h)

/-! ### Parts -/

lemma Settles.split {m : Machine} (h : Settles rules k (m.above K) z) :
    ∃ j l n, k = j + l ∧ Settles rules j m n ∧ Settles rules l (n.above K) z := by
  induction k generalizing m with
  | zero =>
    -- Nothing is at rest over something that is pending unless it is at rest itself.
    have rest : m.outcome?.isSome := by
      by_contra running
      cases h with
      | rest rest => simp [outcome?_above (Option.not_isSome_iff_eq_none.1 running)] at rest
    exact ⟨0, 0, m, rfl, .rest rest, h⟩
  | succ k ih =>
    cases rest : m.outcome? with
    | some o => exact ⟨0, k + 1, m, (Nat.zero_add _).symm, .rest (by rw [rest]; rfl), h⟩
    | none =>
      cases h with
      | step _ next =>
        rw [step_above rest] at next
        obtain ⟨j, l, n, rfl, settles, goes⟩ := ih next
        exact ⟨j + 1, l, n, Nat.add_right_comm j l 1, .step rest settles, goes⟩

lemma Settles.join (h : Settles rules j m n) (hz : Settles rules l (n.above K) z) :
    Settles rules (j + l) (m.above K) z := by
  induction h with
  | rest _ => rwa [Nat.zero_add]
  | step running _ ih =>
    rw [Nat.add_right_comm]
    refine .step (outcome?_above running K) ?_
    rw [step_above running]
    exact ih hz

/-- **What a part does alone is what it does over what is pending.** -/
theorem comesTo_above : (m.above K).ComesTo rules z ↔
    ∃ n, m.ComesTo rules n ∧ (n.above K).ComesTo rules z := by
  constructor
  · rintro ⟨k, settles⟩
    obtain ⟨j, l, n, -, alone, goes⟩ := settles.split
    exact ⟨n, ⟨j, alone⟩, l, goes⟩
  · rintro ⟨n, ⟨j, alone⟩, l, goes⟩
    exact ⟨j + l, alone.join goes⟩

/-! ### Outcomes of parts -/

end Machine

/-- Jumps and errors pass by a pending part and leave everything as it is. -/
structure Pending.Clear (p : Pending) : Prop where
  jump : ∀ (m : Machine) (target : Label) (v : Value), m.jumpThrough p target v = m
  raise : ∀ (m : Machine) (e : RuntimeError), m.raiseThrough p e = m

/-- A jump or an error, which looks for what handles it. -/
def Control.Passing : Control → Prop
  | .jump .. | .raise _ => True
  | _ => False

/-- Whether a value is given. -/
def Control.isGiven : Control → Bool
  | .give _ => true
  | _ => false

namespace Machine

variable {rules : Rules} {m n z : Machine} {c : Control} {K P : List Pending} {k : Nat}

lemma exists_alone (h : n.outcome?.isSome) :
    ∃ c, n = n.alone c ∧ ((∃ v, c = .give v) ∨ c.Passing) := by
  obtain ⟨heap, frames, interpreters, current, collectors, registry, supply, world, control, stack⟩ := n
  obtain ⟨o, ho⟩ := Option.isSome_iff_exists.1 h
  obtain rfl : stack = [] := stack_of_outcome? ho
  refine ⟨control, rfl, ?_⟩
  cases control with
  | give v => exact .inl ⟨v, rfl⟩
  | jump | raise => exact .inr trivial
  | eval | exec | apply => cases ho

lemma leads_passing (rules) (m : Machine) (hc : c.Passing) (hP : ∀ p ∈ P, p.Clear) :
    ((m.alone c).above P).Leads rules (m.alone c) := by
  induction P with
  | nil => exact .refl _
  | cons p P ih =>
    have clear := hP p List.mem_cons_self
    have next : ((m.alone c).above (p :: P)).step rules = (m.alone c).above P := by
      cases c with
      | jump target v => exact clear.jump ((m.alone _).above P) target v
      | raise e => exact clear.raise ((m.alone _).above P) e
      | _ => cases hc
    refine .step ?_
    rw [next]
    exact ih fun q hq => hP q (List.mem_cons_of_mem p hq)

lemma leads_resume (rules) (m : Machine) (v p K) :
    ((m.alone (.give v)).above (p :: K)).Leads rules
      (((m.alone (.give v)).above K).resume rules p v) :=
  .step (.refl _)

lemma comesTo_above_of_leads (h : ∀ n, m.ComesTo rules n → (n.above K).Leads rules n) :
    (m.above K).ComesTo rules z ↔ m.ComesTo rules z := by
  rw [comesTo_above]
  constructor
  · rintro ⟨n, worked, ends⟩
    obtain rfl := (comesTo_self worked.atRest).1 ((h n worked).comesTo.1 ends)
    exact worked
  · exact fun worked => ⟨z, worked, (h z worked).comesTo.2 ((comesTo_self worked.atRest).2 rfl)⟩

lemma ComesTo.hand (h : m.ComesTo rules n) {next} (goes : (n.above K).Leads rules next)
    (hz : next.ComesTo rules z) : (m.above K).ComesTo rules z :=
  comesTo_above.2 ⟨n, h, goes.comesTo.2 hz⟩

lemma Settles.hand (h : Settles rules k (m.above K) z) (running : m.outcome? = none)
    {next : Machine → Machine} (goes : ∀ n, m.ComesTo rules n → (n.above K).Leads rules (next n)) :
    ∃ n j, m.ComesTo rules n ∧ j < k ∧ Settles rules j (next n) z := by
  obtain ⟨j, l, n, rfl, alone, rest⟩ := h.split
  obtain ⟨i, le, settles⟩ := rest.leads (goes n ⟨j, alone⟩)
  cases alone with
  | rest still => simp [running] at still
  | step _ alone => exact ⟨n, i, ⟨_, .step running alone⟩, by omega, settles⟩

/-! ### Blocks -/

/-- The frame of a block that is entered, and the machine with it. -/
def inside (m : Machine) (slots : List Slot) (frame : Ref) : Ref × Machine :=
  if slots.isEmpty then (frame, m) else m.newFrame (.fresh frame slots)

lemma leads_block (rules) (m : Machine) (s rest slots place frame) :
    (m.alone (.exec (.block (.mk (s :: rest) slots place)) frame)).Leads rules
      (((m.inside slots frame).2.alone (.exec s (m.inside slots frame).1)).above
        [.block (.mk (s :: rest) slots place) rest (m.inside slots frame).1]) := by
  refine .step ?_
  cases slots <;> exact .refl _

lemma jumpThrough_of_none (m : Machine) {b : Block} {t} (h : b.resumeAt t = none) (rest frame v) :
    m.jumpThrough (.block b rest frame) t v = m := by
  simp only [jumpThrough, h]

lemma comesTo_pair {a b slots place frame}
    (hb : ∀ t, (Block.mk [a, b] slots place).resumeAt t = none) :
    (m.alone (.exec (.block (.mk [a, b] slots place)) frame)).ComesTo rules z ↔
      ∃ i, ((m.inside slots frame).2.alone (.exec a (m.inside slots frame).1)).ComesTo rules i ∧
        if i.control.isGiven then (i.alone (.exec b (m.inside slots frame).1)).ComesTo rules z
        else z = i := by
  have clear (rest : List Stmt) (f : Ref) : (Pending.block (.mk [a, b] slots place) rest f).Clear :=
    ⟨fun m t v => m.jumpThrough_of_none (hb t) rest f v, fun _ _ => rfl⟩
  have last (f : Ref) (n : Machine) (hn : n.outcome?.isSome) :
      (n.above [.block (.mk [a, b] slots place) [] f]).Leads rules n := by
    obtain ⟨c, rest, ⟨v, rfl⟩ | passing⟩ := exists_alone hn
    · rw [rest]
      exact .step (.refl _)
    · rw [rest]
      exact leads_passing rules n passing (List.forall_mem_singleton.2 (clear [] f))
  rw [(leads_block rules m a [b] slots place frame).comesTo, comesTo_above]
  refine exists_congr fun i => and_congr_right fun hi => ?_
  obtain ⟨c, rest, ⟨v, rfl⟩ | passing⟩ := exists_alone hi.atRest
  · have given : i.control.isGiven := by rw [rest]; rfl
    have first (f : Ref) : (i.above [.block (.mk [a, b] slots place) [b] f]).Leads rules
        ((i.alone (.exec b f)).above [.block (.mk [a, b] slots place) [] f]) := by
      rw [rest]
      exact .step (.refl _)
    rw [if_pos given, (first _).comesTo, comesTo_above_of_leads fun n hn => last _ n hn.atRest]
  · have passed := leads_passing rules i passing
      (List.forall_mem_singleton.2 (clear [b] (m.inside slots frame).1))
    rw [← rest] at passed
    have off : ¬ i.control.isGiven := by
      rw [rest]
      cases c <;> first | exact Bool.noConfusion | cases passing
    rw [if_neg off, passed.comesTo, comesTo_self hi.atRest]

end Machine

end DynScript

import DynScript.Proofs.Constants
import DynScript.Proofs.Episodes

/-!
# The values of constants

A constant is meant to hold a raw scalar, or a box around an array, a record or a function.  Its
declaration takes a value out of its box where the expression is dynamic, which is known from the code
alone.

Main declarations: `Machine.tells_of_isDynamic`.
-/

namespace DynScript

open List

namespace Value

/-- Values that constants are meant to hold: raw scalars, and boxes around what is shared. -/
def isKept : Value → Bool
  | raw d => d.isScalar
  | boxed d _ => !d.isScalar
  | alien _ => false

/-- Whether a value is a scalar, in a box or not. -/
def isScalar : Value → Bool
  | raw d | boxed d _ => d.isScalar
  | alien _ => false

section

variable {l : Prop} {A : Container → Prop} {v : Value}

lemma Held.boxed_or_raw (h : v.Held l A v) :
    (∃ d mark, v = .boxed d mark) ∨ ∃ d, v = .raw d ∧ d.isScalar := by
  cases h with
  | boxed h =>
    cases h
    exact .inl ⟨_, _, rfl⟩
  | scalar hd hv =>
    cases v with
    | boxed d mark => exact .inl ⟨d, mark, rfl⟩
    | raw d => exact .inr ⟨d, rfl, Value.raw.inj hv ▸ hd⟩
    | alien a => cases hv

lemma Held.isKept_or (h : v.Held l A v) : v.isKept ∨ v.isBoxed ∧ v.isScalar := by
  rcases h.boxed_or_raw with ⟨d, mark, rfl⟩ | ⟨d, rfl, hd⟩
  · cases hd : d.isScalar <;> simp [isKept, isScalar, Value.isBoxed, hd]
  · exact .inl hd

lemma Held.isKept_iff (h : v.Held l A v) : v.isKept ↔ (v.isScalar → v.isBoxed = false) := by
  rcases h.boxed_or_raw with ⟨d, mark, rfl⟩ | ⟨d, rfl, hd⟩
  · cases hd : d.isScalar <;> simp [isKept, isScalar, Value.isBoxed, hd]
  · simp [isKept, isScalar, Value.isBoxed, hd]

lemma Held.isKept_unbox (h : v.Held l A v) : v.unbox.isKept := by
  rcases h.boxed_or_raw with ⟨d, mark, rfl⟩ | ⟨d, rfl, hd⟩
  · cases hd : d.isScalar <;> simp [isKept, Value.unbox, hd]
  · exact hd

variable {w : Likeness} {h : Heap} {c i u : Value}

lemma isBoxed_getIndex_iff (hh : h.Like w False A h) (hc : c.Held False A c)
    (hu : c.getIndex h i = .ok u) : u.isBoxed ↔ c.isBoxed ∨ i.isBoxed := by
  refine ⟨fun boxed => ?_, fun hb => isBoxed_getIndex hh hc hb hu⟩
  rcases hc.boxed_or_raw with ⟨d, mark, rfl⟩ | ⟨d, rfl, hd⟩
  · exact .inl rfl
  · rcases getIndex_cases hu with ⟨r, found, -⟩ | ⟨s, rfl⟩
    · -- A raw array is nothing that a script has at hand.
      cases found
      cases hd
    · rw [isBoxed_wrap] at boxed
      simpa using boxed

end

end Value

/-- Expressions that pass on whether what they read is boxed. -/
def Expr.passes : Expr → Bool
  | .read .. | .unary .. | .binary .. | .index .. => true
  | _ => false

namespace Machine

/-! ### What is read -/

/-- A constant that holds a boxed value is about to be read. -/
def ReadsBoxed (m : Machine) : Prop :=
  ∃ slot place frame c, m.control = .eval (.read slot place) frame ∧ slot.constant = true ∧
    m.cell? slot frame = some c ∧ (m.load c).isBoxed

/-- The moments at which an expression or the operands of its operators and indices read variables,
from `m` to `n`. -/
inductive Reads (rules : Rules) : Machine → List Machine → Machine → Prop where
  | read {m : Machine} {slot} {place} {frame}
    (hc : m.control = .eval (.read slot place) frame) : Reads rules m [m] (m.step rules)
  | unary {m n : Machine} {op} {e} {place} {frame}
    {l} (hc : m.control = .eval (.unary op e place) frame)
    (h : Reads rules (m.step rules) l n) : Reads rules m l (n.step rules)
  | binary {m n o : Machine} {op} {a b} {place} {frame}
    {l k} (hc : m.control = .eval (.binary op a b place) frame)
    (left : Reads rules (m.step rules) l n) (right : Reads rules (n.step rules) k o) :
    Reads rules m (l ++ k) (o.step rules)
  | index {m n o : Machine} {a b} {place} {frame} {l k}
    (hc : m.control = .eval (.index a b place) frame) (container : Reads rules (m.step rules) l n)
    (item : Reads rules (n.step rules) k o) : Reads rules m (l ++ k) (o.step rules)
  | other {m n : Machine} {e : Expr} {frame} (hc : m.control = .eval e frame)
    (he : e.passes = false) (run : Within rules m.stack m n) (hs : n.stack = m.stack)
    (hn : TakesUp n.control) : Reads rules m [] n

variable {host : Host} {U : List CompiledUnit} {m n y : Machine} {S : List Pending} {v w : Value}

lemma Within.orderly (hh : host.Orderly) (ho : m.Orderly U)
    (run : Within host S m n) : n.Orderly U := by
  induction run with
  | refl => exact ho
  | step _ _ ih => exact ih.step hh

variable {place : Location}

lemma Orderly.index {c} (ho : m.Orderly U) (hs : m.stack = .index c place :: S) :
    ∃ w A, m.heap.Like w False A m.heap ∧ c.Held False A c := by
  obtain ⟨w, A, h⟩ := ho
  have stack := h.akin.stack
  rw [hs] at stack
  cases stack with
  | foot h => cases h.1
  | cons hp _ =>
    cases hp with
    | index hv _ => exact ⟨w, A, h.akin.heap, hv⟩

/-! ### What is given -/

lemma Within.begun {rules e frame} (run : Within rules S m n) (hc : m.control = .eval e frame)
    (hn : n.control = .give w) : Within rules S (m.step rules) n :=
  run.later (by rw [hc]; exact id) (by rw [hn]; trivial)

lemma ok_of_look {rules} {f : Heap → Except Fault Value} (looks : y.step rules = m.look f place)
    (hs : m.stack = S) (run : Within rules S (y.step rules) n) (hn : n.control = .give w) :
    f m.heap = .ok w ∧ n = y.step rules := by
  rw [looks] at run ⊢
  have ended : (m.look f place).stack = S ∧ TakesUp (m.look f place).control := by
    unfold look
    split <;> exact ⟨hs, trivial⟩
  have same := run.eq_of_end ended.1 ended.2
  refine ⟨?_, same⟩
  rw [same] at hn
  unfold look at hn
  split at hn
  · cases hn
    assumption
  · cases hn

/-- The reads of an expression tell whether its value is boxed: exactly when a constant that is read
holds a box. -/
def Tells (host : Host) (U : List CompiledUnit) (e : Expr) : Prop :=
  ∀ ⦃m n : Machine⦄ ⦃frame : Ref⦄ ⦃w : Value⦄, m.Orderly U → m.control = .eval e frame →
    Within host m.stack m n → n.stack = m.stack → n.control = .give w →
    ∃ l, Reads host m l n ∧ (w.isBoxed ↔ ∃ a ∈ l, a.ReadsBoxed)

lemma tells_of_raw {e : Expr} (he : e.passes = false)
    (raw : ∀ ⦃m n : Machine⦄ ⦃frame : Ref⦄ ⦃w : Value⦄, m.control = .eval e frame →
      Within host m.stack (m.step host) n → n.stack = m.stack →
      n.control = .give w → w.isBoxed = false) : Tells host U e := by
  intro m n frame w ho hc run hs hn
  have takes : TakesUp n.control := by rw [hn]; trivial
  refine ⟨[], .other hc he run hs takes, ?_⟩
  simp [raw hc (run.begun hc hn) hs hn]

lemma tells_literal (value place) : Tells host U (.literal value place) := by
  refine tells_of_raw rfl fun m n frame w hc begun hs hn => ?_
  simp only [step, hc, stepEval] at begun
  have same : n = m.give (.wrap false value.datum) := begun.eq_of_end rfl trivial
  rw [same] at hn
  cases hn
  exact Value.isBoxed_wrap _ _

lemma tells_logical (op a b place) : Tells host U (.logical op a b place) := by
  refine tells_of_raw rfl fun m n frame w hc begun hs hn => ?_
  -- Either operand may be the last one.
  have truth {x : Machine} {t : Bool}
      (run : Within host m.stack (x.giveTruth host t) n)
      (hx : x.stack = m.stack) : w.isBoxed = false := by
    have same : n = x.giveTruth host t := run.eq_of_end hx trivial
    rw [same] at hn
    cases hn
    exact Value.isBoxed_wrap _ _
  have first : m.step host = m.eval a frame (.logicalLeft op b frame) := by
    simp only [step, hc, stepEval]
  rw [first] at begun
  obtain ⟨y, v, -, stack, given, later⟩ := begun.given rfl suffix_rfl hs hn
  rw [step_of_give given stack] at later
  unfold resume at later
  dsimp only at later
  split at later
  · exact truth later rfl
  · exact truth later rfl
  · obtain ⟨z, u, -, stack, given, later⟩ := later.given rfl suffix_rfl hs hn
    rw [step_of_give given stack] at later
    exact truth later rfl

lemma tells_read {slot : Slot} (constant : slot.constant = true) (place) :
    Tells host U (.read slot place) := by
  intro m n frame w ho hc run hs hn
  have begun := run.begun hc hn
  have reads : Reads host m [m] (m.step host) := .read hc
  simp only [step, hc, stepEval, withCell] at begun reads
  cases found : m.cell? slot frame with
  | none =>
    rw [found] at begun
    have same : n = m.raise (.unbound slot.name) place := begun.eq_of_end rfl trivial
    rw [same] at hn
    cases hn
  | some c =>
    rw [found] at begun reads
    have same : n = m.give (m.load c) := begun.eq_of_end rfl trivial
    refine ⟨[m], same ▸ reads, ?_⟩
    rw [same] at hn
    cases hn
    simp only [mem_singleton, exists_eq_left]
    refine ⟨fun boxed => ⟨slot, place, frame, c, hc, constant, found, boxed⟩, ?_⟩
    rintro ⟨slot', place', frame', c', hc', -, found', boxed⟩
    cases hc.symm.trans hc'
    cases found.symm.trans found'
    exact boxed

section

variable (hh : host.Orderly)
include hh

lemma tells_unary {e} (he : Tells host U e) (op place) : Tells host U (.unary op e place) := by
  intro m n frame w ho hc run hs hn
  have begun := run.begun hc hn
  have next := ho.step hh
  have operand : m.step host = m.eval e frame (.unary op place) := by
    simp only [step, hc, stepEval]
  rw [operand] at begun next
  obtain ⟨y, v, run, stack, given, later⟩ := begun.given rfl suffix_rfl hs hn
  obtain ⟨l, reads, boxed⟩ := he next rfl run stack given
  have looks : y.step host = ({ y with stack := m.stack } : Machine).look
      (fun h => h.unary op v) place := step_of_give given stack
  obtain ⟨value, rfl⟩ := ok_of_look looks rfl later hn
  refine ⟨l, .unary hc (operand ▸ reads), ?_⟩
  rw [Heap.isBoxed_unary value]
  exact boxed

lemma tells_operands {a b} (ha : Tells host U a) (hb : Tells host U b) {p : Pending}
    {q : Value → Pending} {frame} (hp : p.isPassed) (hq : ∀ v, (q v).isPassed)
    (goes : ∀ (x : Machine) (v : Value), x.resume host p v = x.eval b frame (q v))
    (begins : m.step host = m.eval a frame p) (ho : m.Orderly U)
    (run : Within host m.stack (m.step host) n) (hs : n.stack = m.stack)
    (hn : n.control = .give w) : ∃ y z v u l k,
      Reads host (m.step host) l y ∧ (v.isBoxed ↔ ∃ x ∈ l, x.ReadsBoxed) ∧
      Reads host (y.step host) k z ∧ (u.isBoxed ↔ ∃ x ∈ k, x.ReadsBoxed) ∧
      z.Orderly U ∧ z.stack = q v :: m.stack ∧ z.control = .give u ∧
      Within host m.stack (z.step host) n := by
  have first := ho.step hh
  rw [begins] at run first ⊢
  obtain ⟨y, v, left, stack, given, later⟩ := run.given hp suffix_rfl hs hn
  obtain ⟨l, reads, boxed⟩ := ha first rfl left stack given
  have second := (left.orderly hh first).step hh
  have next : y.step host = ({ y with stack := m.stack } : Machine).eval b frame (q v) :=
    (step_of_give given stack).trans (goes _ v)
  rw [next] at later second
  obtain ⟨z, u, right, stack, given, later⟩ := later.given (hq v) suffix_rfl hs hn
  obtain ⟨k, reads', boxed'⟩ := hb second rfl right stack given
  exact ⟨y, z, v, u, l, k, reads, boxed, next ▸ reads', boxed', right.orderly hh second, stack, given,
    later⟩

lemma tells_binary {a b} (ha : Tells host U a) (hb : Tells host U b) (op place) :
    Tells host U (.binary op a b place) := by
  intro m n frame w ho hc run hs hn
  have begun := run.begun hc hn
  have begins : m.step host = m.eval a frame (.binaryLeft op b frame place) := by
    simp only [step, hc, stepEval]
  obtain ⟨y, z, v, u, l, k, left, boxed, right, boxed', -, stack, given, later⟩ :=
    tells_operands hh ha hb (q := fun v => .binaryRight op v place) rfl (fun _ => rfl)
      (fun _ _ => rfl) begins ho begun hs hn
  have looks : z.step host = ({ z with stack := m.stack } : Machine).look
      (fun h => h.binary op v u) place := step_of_give given stack
  obtain ⟨value, rfl⟩ := ok_of_look looks rfl later hn
  refine ⟨l ++ k, .binary hc left right, ?_⟩
  rw [Heap.isBoxed_binary value, Bool.or_eq_true, boxed, boxed']
  simp [or_and_right, exists_or]

lemma tells_index {a b} (ha : Tells host U a) (hb : Tells host U b) (place) :
    Tells host U (.index a b place) := by
  intro m n frame w ho hc run hs hn
  have begun := run.begun hc hn
  have begins : m.step host = m.eval a frame (.indexContainer b frame place) := by
    simp only [step, hc, stepEval]
  obtain ⟨y, z, v, u, l, k, container, boxed, item, boxed', order, stack, given, later⟩ :=
    tells_operands hh ha hb (q := fun v => .index v place) rfl (fun _ => rfl) (fun _ _ => rfl) begins
      ho begun hs hn
  have looks : z.step host = ({ z with stack := m.stack } : Machine).look
      (fun h => v.getIndex h u) place := step_of_give given stack
  obtain ⟨value, rfl⟩ := ok_of_look looks rfl later hn
  obtain ⟨_, _, heap, held⟩ := order.index stack
  refine ⟨l ++ k, .index hc container item, ?_⟩
  rw [Value.isBoxed_getIndex_iff heap held value, boxed, boxed']
  simp [or_and_right, exists_or]

/-- **Whether the value of an expression that is not dynamic is boxed** is told by what it reads. -/
theorem tells_of_isDynamic {T} {e : Expr} (he : e.Formed T) (hd : e.isDynamic = false) :
    Tells host U e := by
  induction size : sizeOf e using Nat.strong_induction_on generalizing e with
  | _ k ih =>
    cases e with
    | literal value place => exact tells_literal value place
    | logical op a b place => exact tells_logical op a b place
    | read slot place => exact tells_read (by simpa [Expr.isDynamic] using hd) place
    | unary op e place =>
      simp only [sizeOf_code] at size
      exact tells_unary hh (ih (sizeOf e) (by omega) (he.child mem_cons_self) hd rfl) op place
    | binary op a b place =>
      simp only [sizeOf_code] at size
      obtain ⟨da, db⟩ : a.isDynamic = false ∧ b.isDynamic = false := by
        simpa [Expr.isDynamic] using hd
      exact tells_binary hh (ih (sizeOf a) (by omega) (he.child mem_cons_self) da rfl)
        (ih (sizeOf b) (by omega) (he.child (mem_cons_of_mem _ mem_cons_self)) db rfl) op
        place
    | index a b place =>
      simp only [sizeOf_code] at size
      obtain ⟨da, db⟩ : a.isDynamic = false ∧ b.isDynamic = false := by
        simpa [Expr.isDynamic] using hd
      exact tells_index hh (ih (sizeOf a) (by omega) (he.child mem_cons_self) da rfl)
        (ih (sizeOf b) (by omega) (he.child (mem_cons_of_mem _ mem_cons_self)) db rfl) place
    | unbox e => exact absurd rfl (he.whole e)
    | _ => cases hd

lemma isKept_of_unbox {e frame} (ho : m.Orderly U) (hc : m.control = .eval (.unbox e) frame)
    (run : Within host m.stack m n) (hs : n.stack = m.stack) (hn : n.control = .give w) :
    w.isKept := by
  have begun := run.begun hc hn
  have next := ho.step hh
  have inner : m.step host = m.eval e frame .unbox := by
    simp only [step, hc, stepEval]
  rw [inner] at begun next
  obtain ⟨y, v, run, stack, given, later⟩ := begun.given rfl suffix_rfl hs hn
  obtain ⟨A, held⟩ := (run.orderly hh next).held given
  have last : y.step host = ({ y with stack := m.stack } : Machine).give v.unbox :=
    step_of_give given stack
  rw [last] at later
  have same : n = ({ y with stack := m.stack } : Machine).give v.unbox := later.eq_of_end rfl trivial
  rw [same] at hn
  cases hn
  exact held.isKept_unbox

end

/-! ### Declarations -/

/-- The machine `m` is about to execute the declaration of `slot` with the expression `e`, and in
`y` its value `w` is stored in the variable `c`. -/
structure Binds (rules : Rules) (m : Machine) (slot : Slot) (e : Expr) (y : Machine) (w : Value)
    (c : Cell) : Prop where
  run : ∃ place frame, m.control = .exec (.declare slot e place) frame ∧
    Within rules (.declare slot frame place :: m.stack) (m.step rules) y ∧
    y.stack = .declare slot frame place :: m.stack ∧ y.cell? slot frame = some c
  given : y.control = .give w

variable {rules : Rules} {slot : Slot} {e : Expr} {c : Cell}

lemma step_of_declare {frame} (hc : m.control = .exec (.declare slot e place) frame) :
    m.step rules = m.eval e frame (.declare slot frame place) := by
  simp only [step, hc, stepExec]

/-- The declaration about to be executed, with the value that it gets after `k + 1` steps and the
variable. -/
def binding? (rules : Rules) (m : Machine) (k : Nat) : Option (Slot × Expr × Value × Cell) :=
  let y := (step rules)^[k] ((m.step rules).step rules)
  match m.control, y.control with
  | .exec (.declare slot e _) frame, .give w =>
    if y.stack.length = m.stack.length + 1 ∧ ∀ j < k, m.stack.length + 1 <
        ((step rules)^[j] ((m.step rules).step rules)).stack.length then
      (y.cell? slot frame).map fun c => (slot, e, w, c)
    else none
  | _, _ => none

lemma binds_of_binding? {k : Nat} (h : m.binding? rules k = some (slot, e, w, c)) :
    Binds rules m slot e ((step rules)^[k] ((m.step rules).step rules)) w c := by
  unfold binding? at h
  dsimp only at h
  split at h
  · rename_i slot e place frame w hc hw
    split at h
    · rename_i lengths
      obtain ⟨c, found, same⟩ := Option.map_eq_some_iff.1 h
      cases same
      have begins : m.step rules = m.eval e frame (.declare slot frame place) := step_of_declare hc
      have first : Within rules (.declare slot frame place :: m.stack) (m.step rules)
          ((m.step rules).step rules) := by
        refine .step .refl ?_
        rw [begins]
        exact And.right
      have run := first.trans (.iterate lengths.2)
      have below := run.suffix (by rw [begins]; exact suffix_rfl)
      exact ⟨⟨place, frame, hc, run, (below.eq_of_length_le lengths.1.le).symm, found⟩, hw⟩
    · cases h
  · cases h

lemma Binds.load_eq (h : Binds rules m slot e y w c) : (y.step rules).load c = w := by
  obtain ⟨place, frame, -, -, stack, found⟩ := h.run
  have declares : y.Declares c := ⟨w, slot, frame, place, _, h.given, stack, found⟩
  obtain ⟨slot, v, id, declared⟩ := declares.declared rules
  cases declared.control.symm.trans h.given
  have stored := declared.stored
  rw [id] at stored
  rw [load, ← frameAt, stored]
  rfl

lemma Binds.evaluates (h : Binds rules m slot e y w c) :
    ∃ frame, (m.step rules).control = .eval e frame ∧
      Within rules (m.step rules).stack (m.step rules) y ∧ y.stack = (m.step rules).stack := by
  obtain ⟨place, frame, hc, run, stack, -⟩ := h.run
  rw [step_of_declare hc] at run ⊢
  exact ⟨frame, rfl, run, stack⟩

end Machine

namespace History

variable {host : Host} {n : Nat}

lemma exists_from (hh : host.Orderly) (H : History host) {s frame}
    (hc : (H.state n).control = .exec s frame) : ∃ T, (Node.stmt s).From T := by
  have hereditary : Machine.Hereditary fun x => ∃ T, x.From T := by
    rintro x y ⟨T, hx⟩ hy
    exact ⟨T, hx.child hy⟩
  have units (k : Nat) (u : CompiledUnit) (hu : u ∈ H.units k) :
      ∃ T, (Node.stmt (.block u.program.body)).From T := by
    obtain ⟨_, _, _, _, _, hr⟩ := H.exists_source k u hu
    exact ⟨_, made_of_compile hr⟩
  have texts (k : Nat) (source : String) (u : CompiledUnit)
      (takes : (H.state k).TakesText host source u) :
      ∃ T, (Node.stmt (.block u.program.body)).From T := by
    obtain ⟨-, heap, code, place, -, -, hr, -⟩ := takes
    exact ⟨_, made_of_compile hr⟩
  obtain ⟨L, tracks⟩ := H.exists_tracks hh hereditary n (fun k _ => units k) fun k _ _ => texts k
  have serves := tracks.control
  rw [hc] at serves
  exact tracks.known_of_innermost serves

/-- **What a declaration leaves in a constant.**  It is what a constant is meant to hold, or a boxed
scalar.  It is a boxed scalar exactly when the value of the expression is a scalar and one of the
constants that the expression reads, by itself or through operators and indices, holds a box when it is
read. -/
theorem constant_kept (hh : host.Orderly) (H : History host) {slot : Slot} {e : Expr} {y : Machine}
    {w : Value} {c : Cell} (h : (H.state n).Binds host slot e y w c)
    (hk : slot.constant = true) :
    let v := (y.step host).load c
    (v.isKept ∨ v.isBoxed ∧ v.isScalar) ∧
    ∃ moments, Machine.Reads host ((H.state n).step host) moments y ∧
      (v.isKept ↔ (v.isScalar → ∀ a ∈ moments, ¬ a.ReadsBoxed)) := by
  obtain ⟨roll, -, disciplined⟩ := H.exists_rolls hh
  have order := (disciplined n).orderly.step hh
  obtain ⟨frame, control, run, stack⟩ := h.evaluates
  obtain ⟨A, held⟩ := (run.orderly hh order).held h.given
  obtain ⟨place, _, hc, -⟩ := h.run
  obtain ⟨T, made⟩ := H.exists_from hh hc
  have fixed := made.self.initial slot e place rfl hk
  rw [h.load_eq]
  refine ⟨held.isKept_or, ?_⟩
  by_cases unboxed : ∃ d, e = .unbox d
  · obtain ⟨d, rfl⟩ := unboxed
    refine ⟨[], .other control rfl run stack (h.given ▸ trivial), ?_⟩
    have kept := Machine.isKept_of_unbox hh order control run stack h.given
    simp [kept]
  · have formed : e.Formed T :=
      ⟨made.child mem_cons_self, fun d hd => unboxed ⟨d, Node.expr.inj hd⟩⟩
    obtain ⟨l, reads, boxed⟩ :=
      Machine.tells_of_isDynamic hh formed fixed order control run stack h.given
    refine ⟨l, reads, ?_⟩
    rw [held.isKept_iff, ← Bool.not_eq_true, boxed]
    simp

/-- A constant that is declared with another one and a literal. -/
theorem constant_kept_sum : ∃ (u : CompiledUnit)
    (hu : (compile "let a = \"x\"; let b = a + \"y\";" {} .standard [] {}).result = .ok u) (n : Nat)
    (slot : Slot) (e : Expr) (y : Machine) (w : Value) (c : Cell),
    ((running .none hu).state n).Binds {} slot e y w c ∧ slot.constant = true ∧
    ((y.step {}).load c).isKept ∧ ∃ moments,
      Machine.Reads {} (((running .none hu).state n).step {}) moments y ∧
        ∀ a ∈ moments, ¬ a.ReadsBoxed := by
  have computed : (compile "let a = \"x\"; let b = a + \"y\";" {} .standard []
      {}).result.toOption.any (fun u =>
        let m := (Machine.step {})^[4] (((Machine.initial .standard {} {} defaultLimit true).compile
          "let a = \"x\"; let b = a + \"y\";" {} []).2.atRest.startRun 0 u.program)
        (m.binding? {} 4).any fun b =>
          b.1.constant && (b.2.2.1.isKept && b.2.2.1.isScalar)) = true := by
    decide +kernel
  obtain ⟨u, hu, computed⟩ := (Option.any_eq_true _ _).1 computed
  obtain ⟨⟨slot, e, w, c⟩, hb, computed⟩ := (Option.any_eq_true _ _).1 computed
  obtain ⟨constant, value⟩ := (Bool.and_eq_true _ _).mp computed
  obtain ⟨kept, scalar⟩ := (Bool.and_eq_true _ _).mp value
  have compiled := eq_ok_of_toOption hu
  have binds : ((running .none compiled).state 6).Binds {} slot e _ w c :=
    Machine.binds_of_binding? hb
  obtain ⟨-, moments, reads, exactly⟩ := constant_kept Host.orderly_none _ binds constant
  rw [binds.load_eq] at exactly
  refine ⟨u, compiled, 6, slot, e, _, w, c, binds, constant, ?_, moments, reads,
    exactly.1 kept scalar⟩
  rw [binds.load_eq]
  exact kept

/-- An item of a constant array is a boxed scalar, and so is a constant that is declared with it. -/
theorem constant_kept_item : ∃ (u : CompiledUnit)
    (hu : (compile "let a = [1]; let b = a[0];" {} .standard [] {}).result = .ok u) (n : Nat)
    (slot : Slot) (e : Expr) (y : Machine) (w : Value) (c : Cell),
    u.ok ∧ ((running .none hu).state n).Binds {} slot e y w c ∧ slot.constant = true ∧
      ((y.step {}).load c).isKept = false := by
  have computed : (compile "let a = [1]; let b = a[0];" {} .standard []
      {}).result.toOption.any (fun u =>
        let m := (Machine.step {})^[10] (((Machine.initial .standard {} {} defaultLimit true).compile
          "let a = [1]; let b = a[0];" {} []).2.atRest.startRun 0 u.program)
        u.ok && (m.binding? {} 4).any fun b => b.1.constant && !b.2.2.1.isKept) = true := by
    decide +kernel
  obtain ⟨u, hu, computed⟩ := (Option.any_eq_true _ _).1 computed
  obtain ⟨ok, computed⟩ := (Bool.and_eq_true _ _).mp computed
  obtain ⟨⟨slot, e, w, c⟩, hb, computed⟩ := (Option.any_eq_true _ _).1 computed
  obtain ⟨constant, value⟩ := (Bool.and_eq_true _ _).mp computed
  have compiled := eq_ok_of_toOption hu
  have binds : ((running .none compiled).state 12).Binds {} slot e _ w c :=
    Machine.binds_of_binding? hb
  refine ⟨u, compiled, 12, slot, e, _, w, c, ok, binds, constant, ?_⟩
  rw [binds.load_eq]
  exact (Bool.not_eq_true' _).mp value

end History

end DynScript

import DynScript.Proofs.DynamicSoundness
import DynScript.Proofs.Settling

/-!
# Compound assignments

`x += e` means `x = x + (e)`, and the same goes for items and fields, because what is assigned to is
evaluated before `e` and is read then: when it is a variable, or an item or field of a variable, reading
it a second time gives the same.
-/

namespace DynScript

open List

namespace Machine

variable {rules : Rules} {m n a b a' b' z : Machine}

/-! ### The same outcome -/

/-- Two machines are the same, except that they may locate an error differently. -/
inductive Matches : Machine → Machine → Prop where
  | refl (m : Machine) : Matches m m
  | raise (m : Machine) (fault : Fault) (p q : Option Location) :
    Matches (m.raise fault p) (m.raise fault q)

/-- Two machines come to the same, if they come to rest at all. -/
structure Concurs (rules : Rules) (a b : Machine) : Prop where
  left : ∀ z, a.ComesTo rules z → ∃ z', b.ComesTo rules z' ∧ z.Matches z'
  right : ∀ z', b.ComesTo rules z' → ∃ z, a.ComesTo rules z ∧ z.Matches z'

lemma Concurs.leads (ha : a.Leads rules a') (hb : b.Leads rules b') (h : a'.Concurs rules b') :
    a.Concurs rules b where
  left z hz := by
    obtain ⟨z', goes, same⟩ := h.left z (ha.comesTo.1 hz)
    exact ⟨z', hb.comesTo.2 goes, same⟩
  right z' hz := by
    obtain ⟨z, goes, same⟩ := h.right z' (hb.comesTo.1 hz)
    exact ⟨z, ha.comesTo.2 goes, same⟩

lemma Concurs.of_matches (h : a.Matches b) (ha : a.outcome?.isSome) (hb : b.outcome?.isSome) :
    a.Concurs rules b where
  left _ hz := ⟨b, (comesTo_self hb).2 rfl, (comesTo_self ha).1 hz ▸ h⟩
  right _ hz := ⟨a, (comesTo_self ha).2 rfl, (comesTo_self hb).1 hz ▸ h⟩

lemma Concurs.above {P Q} (h : ∀ n, m.ComesTo rules n → (n.above P).Concurs rules (n.above Q)) :
    (m.above P).Concurs rules (m.above Q) where
  left z hz := by
    obtain ⟨n, alone, goes⟩ := comesTo_above.1 hz
    obtain ⟨z', goes', same⟩ := (h n alone).left z goes
    exact ⟨z', comesTo_above.2 ⟨n, alone, goes'⟩, same⟩
  right z' hz := by
    obtain ⟨n, alone, goes⟩ := comesTo_above.1 hz
    obtain ⟨z, goes', same⟩ := (h n alone).right z' goes
    exact ⟨z, comesTo_above.2 ⟨n, alone, goes'⟩, same⟩

end Machine

/-! ### Values in boxes -/

/-- What is pending while the value of an expression is put into a box. -/
def Expr.boxes (e : Expr) : List Pending :=
  if e.isDynamic then [] else [.box e.place]

lemma Machine.leads_boxed {rules} {m : Machine} (e : Expr) (frame K) :
    ((m.alone (.eval e.boxed frame)).above K).Leads rules
      ((m.alone (.eval e frame)).above (e.boxes ++ K)) := by
  unfold Expr.boxed Expr.boxes
  split
  · exact .refl _
  · exact .step (.refl _)

/-! ### What is written to -/

/-- What an assignment writes to: a variable, an item or a field. -/
inductive Spot where
  | cell (c : Cell)
  | item (container index : Value)
  | field (container key : Value)

namespace Spot

/-- What is pending while the value of an assignment is evaluated. -/
def pending (s : Spot) (place : Location) (old : Option (BinaryOp × Value)) : Pending :=
  match s with
  | cell c => .storeVariable c old place
  | item container index => .storeIndex container index old place
  | field container key => .storeField container key old place

/-- What a spot holds at present. -/
def current (s : Spot) (m : Machine) (h : Heap) : Except Fault Value :=
  match s with
  | cell c => .ok (m.load c)
  | item container index => container.getIndex h index
  | field container key => container.getField h key

/-- What is done to the heap when a value is written. -/
def write (s : Spot) (v : Value) : HeapM Value :=
  match s with
  | cell _ => v.convert
  | item container index => container.setIndex index v
  | field container key => container.setField key v

/-- What is done to the variables when a value has been written. -/
def keep (s : Spot) (m : Machine) (v : Value) : Machine :=
  match s with
  | cell c => m.store c v
  | _ => m

/-- Puts a new value into a spot, or passes a fault on. -/
def store (s : Spot) (m : Machine) (place : Location) : Except Fault Value → Machine
  | .ok v => m.onHeap (s.write v) place fun m v => (s.keep m v).give v
  | .error f => m.raise f place

lemma clear_boxed (s : Spot) (e : Expr) (place old) :
    ∀ p ∈ e.boxes ++ [s.pending place old], p.Clear := by
  intro p hp
  rcases mem_append.1 hp with hp | hp
  · unfold Expr.boxes at hp
    split at hp
    · cases hp
    · obtain rfl := mem_singleton.1 hp
      exact ⟨fun _ _ _ => rfl, fun _ _ => rfl⟩
  · obtain rfl := mem_singleton.1 hp
    cases s <;> exact ⟨fun _ _ _ => rfl, fun _ _ => rfl⟩

lemma resume_pending {rules} {m : Machine} (s : Spot) (place old v) :
    m.resume rules (s.pending place old) v = s.store m place (Machine.updated m.heap old v) := by
  cases s <;> simp only [pending, Machine.resume] <;> cases Machine.updated m.heap old v <;> rfl

end Spot

/-! ### Evaluating what is written to -/

/-- A variable or a constant. -/
inductive Simple where
  | read (slot : Slot)
  | literal (value : Constant)

/-- What can be assigned and is the same whenever evaluated: a variable, or its item or field under
a variable or a constant. -/
inductive Target where
  | read (slot : Slot)
  | index (slot : Slot) (key : Simple)
  | field (slot : Slot) (key : Simple)

/-- The expressions that a variable or constant is written as, here or there. -/
inductive Simple.Written : Simple → Expr → Prop where
  | read (slot : Slot) (p : Location) : Written (.read slot) (.read slot p)
  | literal (value : Constant) (p : Location) : Written (.literal value) (.literal value p)

/-- The expressions that a target is written as, here or there. -/
inductive Target.Written : Target → Expr → Prop where
  | read (slot : Slot) (p : Location) : Written (.read slot) (.read slot p)
  | index (slot : Slot) (p : Location) {key : Simple} {k} (hk : key.Written k) (q : Location) :
    Written (.index slot key) (.index (.read slot p) k q)
  | field (slot : Slot) (p : Location) {key : Simple} {k} (hk : key.Written k) (q : Location) :
    Written (.field slot key) (.field (.read slot p) k q)

/-- What a variable or a constant evaluates to. -/
def Simple.value (rules : Rules) (m : Machine) (frame : Ref) : Simple → Except Fault Value
  | read slot =>
    match m.cell? slot frame with
    | some c => .ok (m.load c)
    | none => .error (.unbound slot.name)
  | literal value => .ok (.wrap rules.alwaysBoxed value.datum)

/-- The spot that a target leads to. -/
def Target.spot (rules : Rules) (m : Machine) (frame : Ref) : Target → Except Fault Spot
  | read slot =>
    match m.cell? slot frame with
    | some c => .ok (.cell c)
    | none => .error (.unbound slot.name)
  | index slot key => do
    return .item (← (Simple.read slot).value rules m frame) (← key.value rules m frame)
  | field slot key => do
    return .field (← (Simple.read slot).value rules m frame) (← key.value rules m frame)

/-- What is done with a value or a fault. -/
def answer (place : Location) : Except Fault Value → Control
  | .ok v => .give v
  | .error f => .raise { fault := f, location := place }

namespace Machine

variable {rules : Rules} {m : Machine} {frame : Ref}

lemma leads_simple (rules) {x : Simple} {e} (h : x.Written e) (m : Machine) (frame) :
    (m.alone (.eval e frame)).Leads rules (m.alone (answer e.place (x.value rules m frame))) := by
  cases h with
  | read slot p =>
    refine .step ?_
    let a := m.alone (.eval (.read slot p) frame)
    change (a.withCell slot frame p fun c => a.give (m.load c)).Leads rules _
    rw [withCell, Simple.value, show a.cell? slot frame = m.cell? slot frame from rfl]
    cases m.cell? slot frame <;> exact .refl _
  | literal value p => exact .step (.refl _)

lemma leads_pair (rules) {x y : Simple} {e k} (hx : x.Written e) (hy : y.Written k) (m) (frame)
    (first : Pending) (second : Value → Pending) {g : Value → Value → Spot} {r}
    (made : (do return g (← x.value rules m frame) (← y.value rules m frame)) = r)
    (clear : first.Clear := by exact ⟨fun _ _ _ => rfl, fun _ _ => rfl⟩)
    (clear' : ∀ c, (second c).Clear := by exact fun _ => ⟨fun _ _ _ => rfl, fun _ _ => rfl⟩)
    (hr : ∀ (n : Machine) (c : Value), n.resume rules first c = n.eval k frame (second c) := by
      exact fun _ _ => rfl) :
    (∀ s, r = .ok s → ∃ c i, s = g c i ∧ ((m.alone (.eval e frame)).above [first]).Leads rules
      ((m.alone (.give i)).resume rules (second c) i)) ∧
    ∀ f, r = .error f → ∃ q, ((m.alone (.eval e frame)).above [first]).Leads rules
      (m.alone (.raise { fault := f, location := q })) := by
  have left := (leads_simple rules hx m frame).above [first]
  have right (c : Value) := (leads_simple rules hy m frame).above [second c]
  have handed (c : Value) : ((m.alone (.give c)).above [first]).Leads rules
      ((m.alone (.eval k frame)).above [second c]) := by
    refine (leads_resume rules m c first []).trans ?_
    rw [hr]
    exact .refl _
  subst made
  cases hc : x.value rules m frame with
  | error g =>
    rw [hc] at left
    refine ⟨fun s hs => (by cases hs), fun f hf => ⟨some e.place, ?_⟩⟩
    cases hf
    exact left.trans (leads_passing _ _ trivial (forall_mem_singleton.2 clear))
  | ok c =>
    rw [hc] at left
    have goes := left.trans ((handed c).trans (right c))
    cases hi : y.value rules m frame with
    | error g =>
      rw [hi] at goes
      refine ⟨fun s hs => (by cases hs), fun f hf => ⟨some k.place, ?_⟩⟩
      cases hf
      exact goes.trans (leads_passing _ _ trivial (forall_mem_singleton.2 (clear' c)))
    | ok i =>
      rw [hi] at goes
      refine ⟨fun s hs => ⟨c, i, ?_, goes.trans (leads_resume rules m i (second c) [])⟩, fun f hf => (by cases hf)⟩
      cases hs
      rfl

lemma leads_assignment (rules) {x : Target} {t A} (h : x.Written t) {u} {operator} {what c σ τ}
    (hA : (Grammar.assignment t u operator what).run c σ = .ok A τ) (m) (frame) :
    (∀ s, x.spot rules m frame = .ok s → ∃ d, (m.alone (.eval A frame)).Leads rules
      ((m.alone d).update u frame operator.location (s.current m) (s.pending operator.location)
        fun m v => s.store m operator.location (.ok v))) ∧
    ∀ f, x.spot rules m frame = .error f → ∃ q, (m.alone (.eval A frame)).Leads rules
      (m.alone (.raise { fault := f, location := q })) := by
  cases h with
  | read slot p =>
    rw [Grammar.assignment] at hA
    split at hA
    · cases hA
    · cases hA
      let a := m.alone (.eval (.assignVariable slot u operator.location) frame)
      have next : a.step rules = a.withCell slot frame operator.location fun c =>
          a.update u frame operator.location ((Spot.cell c).current m)
            ((Spot.cell c).pending operator.location)
            fun m v => (Spot.cell c).store m operator.location (.ok v) := rfl
      rw [withCell, show a.cell? slot frame = m.cell? slot frame from rfl] at next
      simp only [Target.spot]
      cases found : m.cell? slot frame with
      | none =>
        rw [found] at next
        refine ⟨fun s hs => (by cases hs), fun f hf => ⟨operator.location, .step ?_⟩⟩
        cases hf
        rw [next]
        exact .refl _
      | some c =>
        rw [found] at next
        refine ⟨fun s hs => ⟨a.control, .step ?_⟩, fun f hf => (by cases hf)⟩
        cases hs
        rw [next]
        exact .refl _
  | index slot p hk q =>
    cases hA
    have pair := leads_pair rules (.read slot p) hk m frame
      (.assignIndexContainer _ u frame operator.location)
      (fun c => .assignIndex c u frame operator.location) (g := .item) rfl
    refine ⟨fun s hs => ?_, fun f hf => (pair.2 f hf).imp fun _ raised => .step raised⟩
    obtain ⟨c, i, rfl, goes⟩ := pair.1 s hs
    exact ⟨_, .step goes⟩
  | field slot p hk q =>
    cases hA
    have pair := leads_pair rules (.read slot p) hk m frame
      (.assignFieldContainer _ u frame operator.location)
      (fun c => .assignField c u frame operator.location) (g := .field) rfl
    refine ⟨fun s hs => ?_, fun f hf => (pair.2 f hf).imp fun _ raised => .step raised⟩
    obtain ⟨c, i, rfl, goes⟩ := pair.1 s hs
    exact ⟨_, .step goes⟩

lemma leads_target (rules) {x : Target} {t} (h : x.Written t) (m) (frame) {s}
    (hs : x.spot rules m frame = .ok s) : (m.alone (.eval t frame)).Leads rules
      (m.alone (answer t.place (s.current m m.heap))) := by
  have looked (n : Machine) (f : Heap → Except Fault Value) (p : Location) :
      n.look f p = { n with control := answer p (f n.heap) } := by
    unfold look
    cases f n.heap <;> rfl
  cases h with
  | read slot p =>
    have read := leads_simple rules (.read slot p) m frame
    simp only [Simple.value] at read
    simp only [Target.spot] at hs
    cases found : m.cell? slot frame with
    | none => simp [found] at hs
    | some c =>
      simp only [found] at read hs
      cases hs
      exact read
  | index slot p hk q =>
    obtain ⟨c, i, rfl, goes⟩ := (leads_pair rules (.read slot p) hk m frame
      (.indexContainer _ frame q) (fun c => .index c q) (g := .item) rfl).1 s hs
    rw [resume, looked] at goes
    exact .step goes
  | field slot p hk q =>
    obtain ⟨c, i, rfl, goes⟩ := (leads_pair rules (.read slot p) hk m frame
      (.fieldContainer _ frame q) (fun c => .field c q) (g := .field) rfl).1 s hs
    rw [resume, looked] at goes
    exact .step goes

end Machine

/-! ### Combining and writing -/

namespace Value

variable {v : Value}

lemma convert_wrap {d : Datum} (hd : d.isScalar) (b : Bool) : (wrap b d).convert = pure (.boxed d) := by
  funext h
  change (wrap b d).convertWithin (h.containers + 1) h = _
  cases b <;> simp only [wrap, convertWithin, convertWith, Datum.container?_of_isScalar hd,
    Bool.false_eq_true, if_true, if_false]

lemma Held.convert {A : Container → Prop} (h : v.Held False A v) :
    ∃ u : Value, (∀ k, v.convert k = .ok u k) ∧ u.payload = v.payload := by
  have loose : v.Held True A v := by
    cases h with
    | boxed h =>
      cases h with
      | mk d _ hd => exact .boxed (.mk d (.inr rfl) hd)
    | scalar hd hv hv' _ => exact .scalar hd hv hv' (.inr rfl)
  obtain ⟨u, _, converts, -, -, held⟩ := HeapM.convert_of_held loose
  exact ⟨u, converts, (held trivial).1.payload⟩

end Value

lemma Spot.write_wrap (s : Spot) {d : Datum} (hd : d.isScalar) (b b' : Bool) :
    s.write (.wrap b d) = s.write (.wrap b' d) := by
  cases s <;> simp only [write, Value.setIndex, Value.setField, Value.convert_wrap hd]

namespace Machine

variable {rules : Rules} {n : Machine}

lemma leads_boxes (rules) (n : Machine) (e : Expr) {v u : Value} (hu : ∀ h, v.convert h = .ok u h)
    (K) : ∃ v', (v' = v ∨ v' = u) ∧
      ((n.alone (.give v)).above (e.boxes ++ K)).Leads rules ((n.alone (.give v')).above K) := by
  unfold Expr.boxes
  split
  · exact ⟨v, .inl rfl, .refl _⟩
  · have resumed := leads_resume rules n v (.box e.place) K
    simp only [resume] at resumed
    split at resumed
    · exact ⟨v, .inl rfl, resumed⟩
    · rw [onHeap_eq, hu] at resumed
      exact ⟨u, .inr rfl, resumed⟩

lemma concurs_store (s : Spot) (n : Machine) (c c') {w w'} (hw : s.write w = s.write w') (p p') :
    (s.store (n.alone c) p (.ok w)).Concurs rules (s.store (n.alone c') p' (.ok w')) := by
  simp only [Spot.store, onHeap_eq, hw, show (n.alone _).heap = n.heap from rfl]
  cases s.write w' n.heap with
  | ok u h => cases s <;> exact .of_matches (.refl _) rfl rfl
  | error f h => exact .of_matches (.raise { n.alone c with heap := h } f p p') rfl rfl

lemma concurs_combined (s : Spot) (n : Machine) (op old) {v : Value} {A : Container → Prop}
    (hv : v.Held False A v) (e e' : Expr) (p p' r) :
    ((n.alone (.give v)).above (e.boxes ++ [s.pending p (some (op, old))])).Concurs rules
      ((n.alone (.give v)).above (.binaryRight op old r :: (e'.boxes ++ [s.pending p' none]))) := by
  obtain ⟨u, hu, payload⟩ := hv.convert
  obtain ⟨v', hv', left⟩ := leads_boxes rules n e hu [s.pending p (some (op, old))]
  replace left := left.trans (leads_resume rules n v' _ [])
  have right := leads_resume rules n v (.binaryRight op old r) (e'.boxes ++ [s.pending p' none])
  have same : n.heap.binaryDatum op old v' = n.heap.binaryDatum op old v := by
    refine Heap.binaryDatum_eq ⟨rfl, fun _ => rfl, fun _ => rfl, fun _ => rfl⟩ op rfl ?_
    rcases hv' with rfl | rfl
    · rfl
    · exact payload
  rw [Spot.resume_pending, show updated _ _ _ = n.heap.binary op old v' from rfl, Heap.binary,
    same] at left
  rw [resume, look, show ((n.alone (.give v)).above _).heap = n.heap from rfl, Heap.binary] at right
  cases datum : n.heap.binaryDatum op old v with
  | error f =>
    rw [datum] at left right
    exact .leads left (right.trans (leads_passing _ _ trivial (s.clear_boxed e' p' none)))
      (.of_matches (.raise (n.alone (.give v)) f p r) rfl rfl)
  | ok d =>
    have scalar := Heap.isScalar_binaryDatum datum
    rw [datum] at left right
    have convert (h : Heap) : (Value.wrap (old.isBoxed || v.isBoxed) d).convert h = .ok (.boxed d) h := by
      rw [Value.convert_wrap scalar]
      rfl
    obtain ⟨w, hw, boxed⟩ := leads_boxes rules n e' convert [s.pending p' none]
    replace right := (right.trans boxed).trans (leads_resume rules n w _ [])
    rw [Spot.resume_pending] at right
    refine .leads left right (concurs_store s n _ _ ?_ p p')
    rcases hw with rfl | rfl
    · exact s.write_wrap scalar _ _
    · exact s.write_wrap scalar _ true

lemma Orderly.alone {m : Machine} {U c} (h : m.Orderly U) (hc : m.control = c) :
    (m.alone c).Orderly U := by
  obtain ⟨w, A, h⟩ := h
  exact ⟨w, A, h.free, { h.akin with stack := .foot ⟨rfl, rfl⟩ }, hc ▸ h.control, h.units⟩

end Machine

namespace Grammar

open Parse ParseResult

variable {c : ParseContext} {g : Grammar}

/-- **The operators that assign are those of the levels with `=` behind them**, apart from `=` itself. -/
theorem updateOf?_eq_some {kind} {f : Expr → Update} (h : updateOf? kind = some f) :
    kind = .assign ∧ f = .set ∨ ∃ op plain, f = .combine op ∧ kind.name = plain.name ++ "_ASSIGN" ∧
      (plain, Connective.binary op) ∈ levels.flatten := by
  unfold updateOf? at h
  split at h <;> cases h
  · exact .inl ⟨rfl, rfl⟩
  · exact .inr ⟨.add, .plus, rfl, rfl, by simp [levels]⟩
  · exact .inr ⟨.sub, .minus, rfl, rfl, by simp [levels]⟩
  · exact .inr ⟨.mul, .star, rfl, rfl, by simp [levels]⟩
  · exact .inr ⟨.div, .slash, rfl, rfl, by simp [levels]⟩
  · exact .inr ⟨.mod, .percent, rfl, rfl, by simp [levels]⟩

/-- **What the parser makes of an assignment**: it reads the target, the operator and the value. -/
theorem gives_assigned (hc : c.eof.kind = .endOfInput) (s) : g.assigned.Gives c s fun a u =>
    (g.leveled levels).run c s = .ok a u ∨ ∃ t s₁ operator s₂ f value s₃,
      (g.leveled levels).run c s = .ok t s₁ ∧ updateOf? operator.kind = some f ∧ Takes s₁ operator s₂ ∧
      g.expression.run c s₂ = .ok value s₃ ∧
      (assignment t (f value.boxed) operator "assignment").run c s₃ = .ok a u := by
  refine .bind (.self _ s) fun t s₁ ht => .seen run_peek ?_
  split
  · exact .pure (.inl ht)
  · rename_i f hf
    have next : (s₁.rest.headD c.eof).kind ≠ .endOfInput := fun e => by rw [e] at hf; cases hf
    refine .advance hc next fun operator s₂ ho taken => .bind (.self _ s₂) fun v s₃ hv a u ha => ?_
    exact .inr ⟨t, s₁, operator, s₂, f, v, s₃, ht, ho ▸ hf, taken, hv, ha⟩

/-- What the parser makes of two operands with an operator between them. -/
lemma run_chain_pair {level : Level} {operand : Parse Expr} {s t : ParseState} {x} {rest op right}
    (hs : s.rest = x :: rest) (hx : level.lookup x.kind = some (.binary op))
    (hr : operand.run c { s with last := x, rest := rest } = .ok right t)
    (ht : level.lookup (t.rest.headD c.eof).kind = none) (fuel : Nat) (left) :
    (chain level operand (fuel + 2) left).run c s = .ok (.binary op left right x.location) t := by
  simp only [chain, run_bind, run_peek, andThen_ok, hs, headD_cons, hx, run_advance_cons hs, hr, ht,
    run_pure]
  rfl

end Grammar

namespace History

open Machine

variable {host : Host}

/-- **A compound assignment equals its expansion.**  Let a machine be about to evaluate what the parser
makes of `t += e`, where `t` is a variable, or the item or field of a variable under a variable or a
constant, and `+` may be any operator.  What it makes of `t = t + (e)`, evaluated in the same state, comes
to the same: to the same value or to an error of the same class with the same message, and to the same
output and store, whatever `e` does to the variables and containers that `t` is about. -/
theorem compound_assignment (hh : host.Orderly) (H : History host) {n : Nat} {frame : Ref}
    {x : Target} {t t' t'' e A B : Expr} (ht : x.Written t) (ht' : x.Written t') (ht'' : x.Written t'')
    {op : BinaryOp} {place : Location} {operator operator' : Token} {what what' : String}
    {c c' : ParseContext} {σ σ' τ τ' : ParseState}
    (hA : (Grammar.assignment t (.combine op e.boxed) operator what).run c σ = .ok A τ)
    (hB : (Grammar.assignment t' (.set (Expr.binary op t'' e place).boxed) operator' what').run c' σ' =
      .ok B τ')
    (hm : (H.state n).control = .eval A frame) :
    ((H.state n).alone (.eval A frame)).Concurs host
      ((H.state n).alone (.eval B frame)) := by
  obtain ⟨roll, -, disciplined⟩ := H.exists_rolls hh
  have orderly := (disciplined n).orderly.alone hm
  generalize H.state n = m at hm orderly ⊢
  let rules : Rules := host
  have left := leads_assignment rules ht hA m frame
  have right := leads_assignment rules ht' hB m frame
  cases hs : x.spot rules m frame with
  | error f =>
    obtain ⟨p, raised⟩ := left.2 f hs
    obtain ⟨q, raised'⟩ := right.2 f hs
    exact .leads raised raised' (.of_matches (.raise (m.alone (.eval A frame)) f p q) rfl rfl)
  | ok s =>
    obtain ⟨d, left⟩ := left.1 s hs
    obtain ⟨d', right⟩ := right.1 s hs
    -- The expansion reads what is assigned to once more.
    let boxes := (Expr.binary op t'' e place).boxes ++ [s.pending operator'.location none]
    have clear : ∀ p ∈ boxes, p.Clear := s.clear_boxed _ _ none
    have read := (leads_target rules ht'' m frame hs).above (.binaryLeft op e frame place :: boxes)
    replace right := right.trans ((leads_boxed _ frame _).trans (.step read))
    simp only [update, show (m.alone d).heap = m.heap from rfl] at left
    cases current : s.current m m.heap with
    | error f =>
      rw [current] at left right
      refine .leads left (right.trans (leads_passing _ _ trivial ?_))
        (.of_matches (.raise (m.alone d) f _ _) rfl rfl)
      exact forall_mem_cons.2 ⟨⟨fun _ _ _ => rfl, fun _ _ => rfl⟩, clear⟩
    | ok old =>
      rw [current] at left right
      replace left := left.trans (leads_boxed e frame [s.pending operator.location (some (op, old))])
      replace right := right.trans (leads_resume rules m old _ boxes)
      refine .leads left right (.above fun r hr => ?_)
      obtain ⟨k, rest, ⟨v, rfl⟩ | passing⟩ := exists_alone hr.atRest
      · have ends := (left.trans (hr.leads.above _)).keeps (P := Orderly (H.units n))
          (fun _ => Orderly.step hh) orderly
        obtain ⟨_, held⟩ := ends.held (congrArg Machine.control rest)
        rw [rest]
        exact concurs_combined s r op old held e _ _ _ place
      · rw [rest]
        refine .leads (leads_passing _ _ passing (s.clear_boxed e _ _)) (leads_passing _ _ passing ?_)
          (.of_matches (.refl _) (rest ▸ hr.atRest) (rest ▸ hr.atRest))
        exact forall_mem_cons.2 ⟨⟨fun _ _ _ => rfl, fun _ _ => rfl⟩, clear⟩

/-- The parts of a compound assignment to an item of a variable that is being evaluated. -/
def itemUpdate? : Control → Option (Slot × Constant × BinaryOp × Expr × Location × Location × Location)
  | .eval (.assignIndex (.read slot p) (.literal value q) (.combine op e) place) _ =>
    some (slot, value, op, e, p, q, place)
  | _ => none

lemma eq_of_itemUpdate? {k slot value op e p q place}
    (h : itemUpdate? k = some (slot, value, op, e, p, q, place)) : ∃ frame,
    k = .eval (.assignIndex (.read slot p) (.literal value q) (.combine op e) place) frame := by
  unfold itemUpdate? at h
  split at h
  · cases h
    exact ⟨_, rfl⟩
  · cases h

/-- The item that something is added to is that of the old array. -/
theorem compound_assignment_item : ∃ (H : History .none) (n : Nat) (frame : Ref) (A B : Expr),
    (H.state n).control = .eval A frame ∧
      ((H.state n).alone (.eval A frame)).Concurs {} ((H.state n).alone (.eval B frame)) := by
  have computed : (compile "var a = [1]; a[0] += (a = [5])[0];" {} .standard [] {}).result.toOption.any
      (fun u => (itemUpdate? ((Machine.step {})^[9] (((Machine.initial .standard {} {} defaultLimit
        true).compile "var a = [1]; a[0] += (a = [5])[0];" {} []).2.atRest.startRun 0
          u.program)).control).any fun parts => parts.2.2.2.1.isDynamic) = true := by
    decide +kernel
  obtain ⟨u, hu, computed⟩ := (Option.any_eq_true _ _).1 computed
  obtain ⟨⟨slot, value, op, e, p, q, place⟩, parts, dynamic⟩ := (Option.any_eq_true _ _).1 computed
  let H : History .none := running .none (eq_ok_of_toOption hu)
  obtain ⟨frame, control⟩ : ∃ frame, (H.state 11).control =
      .eval (.assignIndex (.read slot p) (.literal value q) (.combine op e) place) frame :=
    eq_of_itemUpdate? parts
  have boxed : e.boxed = e := if_pos dynamic
  let t : Expr := .index (.read slot p) (.literal value q) place
  have written : (Target.index slot (.literal value)).Written t :=
    .index slot p (.literal value q) place
  let sign : Token := { (default : Token) with location := place }
  let c : ParseContext := { eof := sign, natives := .standard, bound := 0 }
  let σ : ParseState := ⟨sign, [], default, []⟩
  have short : (Grammar.assignment t (.combine op e.boxed) sign "").run c σ =
      .ok (.assignIndex (.read slot p) (.literal value q) (.combine op e) place) σ := by
    rw [boxed]
    rfl
  have long : (Grammar.assignment t (.set (Expr.binary op t e place).boxed) sign "").run c σ =
      .ok _ σ := rfl
  exact ⟨H, 11, frame, _, _, control, compound_assignment Host.orderly_none H (n := 11) written written
    written short long control⟩

end History

end DynScript

import DynScript.Value.Access
import Mathlib.Tactic.Lemma

/-!
# What values are apart from their boxes

The operations on values look at the payload of a value, not at its box.
-/

namespace DynScript

open List Value

/-! ### Values -/

namespace Value

variable {v v' u u' : Value}

lemma kind_payload (v : Value) : v.payload.kind = v.kind := by
  cases v <;> rfl

lemma datum?_payload (v : Value) : v.payload.datum? = v.datum? := by
  cases v <;> rfl

lemma isTrue_payload (v : Value) : v.payload.isTrue = v.isTrue := by
  cases v <;> rfl

section

variable (h : v.payload = v'.payload)
include h

lemma kind_eq : v.kind = v'.kind := by
  rw [← kind_payload v, h, kind_payload]

lemma datum?_eq : v.datum? = v'.datum? := by
  rw [← datum?_payload v, h, datum?_payload]

lemma isTrue_eq : v.isTrue = v'.isTrue := by
  rw [← isTrue_payload v, h, isTrue_payload]

lemma number?_eq : v.number? = v'.number? := by
  unfold number?
  rw [datum?_eq h]

lemma string?_eq : v.string? = v'.string? := by
  unfold string?
  rw [datum?_eq h]

lemma equal_eq (k : u.payload = u'.payload) :
    v.equal u = v'.equal u' := by
  unfold equal
  rw [kind_eq h, kind_eq k, datum?_eq h, datum?_eq k]

end

end Value

lemma operandFault_eq {α : Type} (symbol) {v v' : Value} (h : v.payload = v'.payload) :
    (operandFault symbol [v] : Except Fault α) = operandFault symbol [v'] := by
  simp only [operandFault, mapM_cons, mapM_nil, kind_eq h]

lemma operandFault_pair {α : Type} (symbol) {v v' u u' : Value} (h : v.payload = v'.payload)
    (k : u.payload = u'.payload) :
    (operandFault symbol [v, u] : Except Fault α) = operandFault symbol [v', u'] := by
  simp only [operandFault, mapM_cons, mapM_nil, kind_eq h, kind_eq k]

/-! ### Heaps -/

/-- Two heaps have the same contents, boxes and the code of functions aside. -/
structure Heap.Agrees (h h' : Heap) : Prop where
  containers : h.containers = h'.containers
  arrays : ∀ r, (h.array r).toList.map payload = (h'.array r).toList.map payload
  fields : ∀ r, (h.record r).fields.map (Prod.map id payload) =
    (h'.record r).fields.map (Prod.map id payload)
  functions : ∀ r, (h.function r).text = (h'.function r).text

lemma mapM_eq_of_map {α β γ : Type} {p : α → γ} {f g : α → Except Fault β}
    (hfg : ∀ a b, p a = p b → f a = g b) :
    ∀ {l l' : List α}, l.map p = l'.map p → l.mapM f = l'.mapM g
  | [], [], _ => rfl
  | a :: l, b :: l', h => by
    obtain ⟨hab, hl⟩ : p a = p b ∧ l.map p = l'.map p := by simpa using h
    rw [mapM_cons, mapM_cons, hfg a b hab, mapM_eq_of_map hfg hl]

namespace Heap

variable {h h' : Heap} {v v' u u' : Value}

lemma Agrees.size (hh : h.Agrees h') (r) : (h.array r).size = (h'.array r).size := by
  simpa using congrArg List.length (hh.arrays r)

section

variable (hh : h.Agrees h')
include hh

lemma scalarText_eq (nested : Bool) (d) : h.scalarText nested d = h'.scalarText nested d := by
  cases d with
  | callable r => exact hh.functions r
  | _ => rfl

lemma contentText_eq {f g : Value → Except Fault String}
    (hfg : ∀ v v', v.payload = v'.payload → f v = g v') (c) :
    h.contentText f c = h'.contentText g c := by
  cases c with
  | array r => simp only [contentText, mapM_eq_of_map hfg (hh.arrays r)]
  | record r =>
    have part (a b : Key × Value) (hab : Prod.map id payload a = Prod.map id payload b) :
        (do return a.1.text ++ ": " ++ (← f a.2) : Except Fault String) =
          do return b.1.text ++ ": " ++ (← g b.2) := by
      obtain ⟨hn, hv⟩ := Prod.mk.inj hab
      rw [show a.1 = b.1 from hn, hfg _ _ hv]
    simp only [contentText, mapM_eq_of_map part (hh.fields r)]

omit hh in
lemma textWithin_payload (h : Heap) (depth : Nat) (path) (nested : Bool) (v : Value) :
    h.textWithin depth path nested v.payload = h.textWithin depth path nested v := by
  cases v with
  | boxed d mark => cases depth <;> simp only [payload, textWithin]
  | _ => rfl

lemma textWithin_eq (depth : Nat) (path) (nested : Bool) (hv : v.payload = v'.payload) :
    h.textWithin depth path nested v = h'.textWithin depth path nested v' := by
  rw [← textWithin_payload h, ← textWithin_payload h', hv]
  generalize v'.payload = u
  induction depth generalizing path nested u v v' with
  | zero => cases u <;> simp only [textWithin, scalarText_eq hh]
  | succ depth ih =>
    have part (path : List Container) (v v' : Value) (hv : v.payload = v'.payload) :
        h.textWithin depth path true v = h'.textWithin depth path true v' := by
      rw [← textWithin_payload h, ← textWithin_payload h', hv]
      exact ih path true hv _
    cases u with
    | alien a => rfl
    | boxed d _ | raw d =>
      simp only [textWithin, scalarText_eq hh]
      split
      · rfl
      · split
        · rfl
        · exact contentText_eq hh (part _) _

lemma text_eq (hv : v.payload = v'.payload) : h.text v = h'.text v' := by
  unfold text
  rw [hh.containers]
  exact textWithin_eq hh _ _ _ hv

/-! ### Operators -/

lemma integer_eq (symbol) (hv : v.payload = v'.payload) :
    h.integer symbol v = h'.integer symbol v' := by
  unfold integer
  rw [number?_eq hv, text_eq hh hv]

lemma sum_eq (hv : v.payload = v'.payload) (hu : u.payload = u'.payload) : h.sum v u = h'.sum v' u' := by
  unfold sum
  rw [string?_eq hv, string?_eq hu, number?_eq hv, number?_eq hu,
    text_eq hh hv, text_eq hh hu, operandFault_pair _ hv hu]

omit hh in
lemma compared_eq (op) (numbers : Float → Float → Bool) (texts : String → String → Bool)
    (hv : v.payload = v'.payload) (hu : u.payload = u'.payload) :
    compared op numbers texts v u = compared op numbers texts v' u' := by
  unfold compared
  rw [string?_eq hv, string?_eq hu, number?_eq hv, number?_eq hu,
    operandFault_pair _ hv hu]

omit hh in
lemma combined_eq (op) (f : Float → Float → Float) (hv : v.payload = v'.payload)
    (hu : u.payload = u'.payload) : combined op f v u = combined op f v' u' := by
  unfold combined
  rw [number?_eq hv, number?_eq hu, operandFault_pair _ hv hu]

lemma bitwise_eq (op) (hv : v.payload = v'.payload) (hu : u.payload = u'.payload) :
    h.bitwise op v u = h'.bitwise op v' u' := by
  unfold bitwise
  rw [number?_eq hv, number?_eq hu, integer_eq hh _ hv, integer_eq hh _ hu,
    operandFault_pair _ hv hu]

lemma binaryDatum_eq (op) (hv : v.payload = v'.payload) (hu : u.payload = u'.payload) :
    h.binaryDatum op v u = h'.binaryDatum op v' u' := by
  unfold binaryDatum
  simp only [equal_eq hv hu, sum_eq hh hv hu, compared_eq _ _ _ hv hu,
    combined_eq _ _ hv hu, bitwise_eq hh _ hv hu]

lemma unaryNumber_eq (op) (hv : v.payload = v'.payload) (a) :
    h.unaryNumber op v a = h'.unaryNumber op v' a := by
  unfold unaryNumber
  simp only [integer_eq hh _ hv]

end

lemma operandFault_ne_ok {α : Type} (symbol operands) (a : α) :
    operandFault symbol operands ≠ .ok a := by
  intro he
  unfold operandFault at he
  cases hk : operands.mapM kind <;> rw [hk] at he <;> cases he

lemma isScalar_binaryDatum {op} {d} (hd : h.binaryDatum op v u = .ok d) : d.isScalar := by
  unfold binaryDatum at hd
  split at hd
  · cases he : v.equal u <;> rw [he] at hd <;> cases hd
    rfl
  · cases he : v.equal u <;> rw [he] at hd <;> cases hd
    rfl
  · unfold sum at hd
    split at hd
    · cases hv : h.text v <;> cases hu : h.text u <;> rw [hv, hu] at hd <;> cases hd
      rfl
    · split at hd
      · cases hd
        rfl
      · exact absurd hd (operandFault_ne_ok _ _ _)
  · split at hd
    · unfold compared at hd
      split at hd
      · cases hd
        rfl
      · cases hd
        rfl
      · exact absurd hd (operandFault_ne_ok _ _ _)
    · unfold combined at hd
      split at hd
      · cases hd
        rfl
      · exact absurd hd (operandFault_ne_ok _ _ _)
    · unfold bitwise at hd
      split at hd
      · cases hx : h.integer op.symbol v with
        | error e => rw [hx] at hd; cases hd
        | ok x =>
          cases hy : h.integer op.symbol u with
          | error e => rw [hx, hy] at hd; cases hd
          | ok y =>
            cases hz : op.onIntegers x y with
            | error e => simp [hx, hy, hz, bind, Except.bind] at hd
            | ok z =>
              simp only [hx, hy, hz, bind, Except.bind] at hd
              split at hd <;> cases hd
              rfl
      · exact absurd hd (operandFault_ne_ok _ _ _)

end Heap

/-! ### Positions and names -/

namespace Value

variable {h h' : Heap} {v v' : Value}

lemma position_eq (hh : h.Agrees h') (hv : v.payload = v'.payload) (length : Nat) (kind) :
    position h v length kind = position h' v' length kind := by
  unfold position
  rw [number?_eq hv, h.text_eq hh hv]

lemma fieldName_eq (hh : h.Agrees h') (hv : v.payload = v'.payload) :
    fieldName h v = fieldName h' v' := by
  unfold fieldName
  rw [string?_eq hv, h.text_eq hh hv]

end Value

end DynScript

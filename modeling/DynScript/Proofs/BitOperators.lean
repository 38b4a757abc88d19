import DynScript.Proofs.IntegralNumbers
import DynScript.Value.Operators
import Mathlib.Data.Int.Bitwise

/-!
# Operators on bits

An operator on bits takes the integers that its operands stand for, works on their bits in two's
complement, however many there are, and gives the number nearest to the integer that comes out.
-/

namespace DynScript

open List Number

/-! ### Integers that are too large -/

namespace Number

lemma roundDiv_cases (n d : Nat) : roundDiv n d = n / d ∧ 2 * (n % d) ≤ d ∨
    roundDiv n d = n / d + 1 ∧ d ≤ 2 * (n % d) := by
  unfold roundDiv
  dsimp only
  split
  · exact .inl ⟨rfl, by omega⟩
  · split
    · exact .inr ⟨rfl, by omega⟩
    · rcases Nat.mod_two_eq_zero_or_one (n / d) with even | odd
      · exact .inl ⟨by omega, by omega⟩
      · exact .inr ⟨by omega, by omega⟩

lemma roundDiv_of_odd {n d : Nat} (hd : d ≤ 2 * (n % d)) (odd : n / d % 2 = 1) :
    roundDiv n d = n / d + 1 := by
  unfold roundDiv
  dsimp only
  split
  · omega
  · split <;> omega

/-- The mantissa of the number nearest to an integer, of which `k` is the highest bit. -/
def nearestMantissa (n k : Nat) : Nat :=
  roundDiv (n * 2 ^ (52 - k)) (2 ^ (k - 52))

lemma nearestBits_one {n : Nat} (hn : n ≠ 0) :
    nearestBits n 1 = (n.log2 + 1022) * 2 ^ 52 + nearestMantissa n n.log2 := by
  have exponent : max (logRatio n 1 - 52) (-1074) = (n.log2 : Int) - 52 := by
    rw [logRatio_one hn]
    omega
  have up : (-((n.log2 : Int) - 52)).toNat = 52 - n.log2 := by omega
  have down : ((n.log2 : Int) - 52).toNat = n.log2 - 52 := by omega
  have biased : ((n.log2 : Int) - 52 + 1074).toNat = n.log2 + 1022 := by omega
  unfold nearestBits nearestMantissa
  dsimp only
  rw [if_neg hn, exponent, up, down, biased, one_mul]
  rfl

lemma mantissa_div_bounds {n k : Nat} (low : 2 ^ k ≤ n) (high : n < 2 ^ (k + 1)) :
    2 ^ 52 ≤ n * 2 ^ (52 - k) / 2 ^ (k - 52) ∧ n * 2 ^ (52 - k) / 2 ^ (k - 52) < 2 ^ 53 := by
  have scale : 2 ^ k * 2 ^ (52 - k) = 2 ^ 52 * 2 ^ (k - 52) := by
    rw [← Nat.pow_add, ← Nat.pow_add]
    congr 1
    omega
  have pos := Nat.two_pow_pos (k - 52)
  constructor
  · rw [Nat.le_div_iff_mul_le pos, ← scale]
    exact Nat.mul_le_mul_right _ low
  · rw [Nat.div_lt_iff_lt_mul pos]
    calc n * 2 ^ (52 - k) < 2 ^ (k + 1) * 2 ^ (52 - k) :=
          Nat.mul_lt_mul_of_pos_right high (Nat.two_pow_pos _)
      _ = 2 ^ 53 * 2 ^ (k - 52) := by
          rw [pow_succ, Nat.mul_right_comm, scale]
          omega

lemma nearestMantissa_lt_iff {n e : Nat} (low : 2 ^ (e + 53) ≤ n) (high : n < 2 ^ (e + 54)) :
    nearestMantissa n (e + 53) < 2 ^ 53 ↔ n < 2 ^ (e + 54) - 2 ^ e := by
  have bounds := (mantissa_div_bounds low high).2
  have pos := Nat.two_pow_pos e
  have all : 52 - (e + 53) = 0 := by omega
  have unit : e + 53 - 52 = e + 1 := by omega
  unfold nearestMantissa
  rw [all, unit, Nat.pow_zero, mul_one, Nat.pow_succ'] at bounds ⊢
  rw [Nat.pow_add] at high ⊢
  clear low
  generalize 2 ^ e = u at *
  have whole := Nat.div_add_mod n (2 * u)
  have less := Nat.mod_lt n (y := 2 * u) (by omega)
  constructor
  · intro small
    by_contra large
    have last : n / (2 * u) = 2 ^ 53 - 1 := by
      have more : 2 * u * (2 ^ 53 - 2) < 2 * u * (n / (2 * u)) := by omega
      have := Nat.lt_of_mul_lt_mul_left more
      omega
    rw [last] at whole
    rw [roundDiv_of_odd (by omega) (by omega), last] at small
    omega
  · intro small
    rcases roundDiv_cases n (2 * u) with ⟨e, -⟩ | ⟨e, half⟩
    · omega
    · by_contra large
      have last : n / (2 * u) = 2 ^ 53 - 1 := by omega
      rw [last] at whole
      omega

lemma nearestMantissa_bounds {n : Nat} (hn : n ≠ 0) :
    2 ^ 52 ≤ nearestMantissa n n.log2 ∧ nearestMantissa n n.log2 ≤ 2 ^ 53 := by
  have bounds := mantissa_div_bounds (Nat.log2_self_le hn) (Nat.lt_log2_self (n := n))
  unfold nearestMantissa
  rcases roundDiv_cases (n * 2 ^ (52 - n.log2)) (2 ^ (n.log2 - 52)) with ⟨e, -⟩ | ⟨e, -⟩ <;> omega

lemma two_pow_le {a b : Nat} (h : a ≤ b) : 2 ^ a ≤ 2 ^ b :=
  Nat.pow_le_pow_right (by decide) h

lemma nearestBits_lt_of_eq {n e : Nat} (he : e = 970) :
    nearestBits n 1 < infiniteBits ↔ n < 2 ^ (e + 54) - 2 ^ e := by
  have infinite : infiniteBits = 2047 * 2 ^ 52 := rfl
  have below (h : n < 2 ^ (e + 53)) : n < 2 ^ (e + 54) - 2 ^ e := by
    have pos := Nat.two_pow_pos e
    rw [Nat.pow_add] at h ⊢
    omega
  by_cases zero : n = 0
  · subst zero
    exact iff_of_true (by decide) (below (Nat.two_pow_pos _))
  · have low := Nat.log2_self_le zero
    have high := Nat.lt_log2_self (n := n)
    have bounds := nearestMantissa_bounds zero
    rw [nearestBits_one zero, infinite]
    rcases Nat.lt_trichotomy n.log2 (e + 53) with lt | eq | gt
    · exact iff_of_true (by omega) (below (lt_of_lt_of_le high (two_pow_le lt)))
    · rw [eq] at low high ⊢
      rw [← nearestMantissa_lt_iff low high]
      omega
    · have beyond : 2 ^ (e + 54) ≤ n := (two_pow_le gt).trans low
      exact iff_of_false (by omega) (not_lt.2 ((Nat.sub_le _ _).trans beyond))

lemma nearestBits_lt_iff {n : Nat} : nearestBits n 1 < infiniteBits ↔ n < 2 ^ 1024 - 2 ^ 970 := by
  have middle := nearestBits_lt_of_eq (n := n) (e := 970) rfl
  simpa only [Nat.reduceAdd] using middle

/-- **An integer is too large to be a number** from the middle between the largest number and the next
power of two on. -/
theorem ofInt?_eq_none_iff {n : Int} : ofInt? n = none ↔ 2 ^ 1024 - 2 ^ 970 ≤ n.natAbs := by
  rw [← not_lt, ← nearestBits_lt_iff]
  unfold ofInt?
  dsimp only
  split <;> simp_all

variable {x : Float} {n : Int}

lemma natAbs_le_of_toInt? (h : toInt? x = some n) :
    n.natAbs ≤ 2 ^ 1024 - 2 ^ 971 := by
  unfold toInt? at h
  split at h
  · rename_i finite
    have special : x.toBits.toNat / 2 ^ 52 % 2 ^ 11 ≠ 2047 := exponent_of_isFinite finite
    have size : (magnitude x).mantissa < 2 ^ 53 ∧ (magnitude x).exponent ≤ 971 := by
      rcases lt_or_ge (x.toBits.toNat % 2 ^ 63) (2 ^ 52) with small | normal
      · rw [magnitude_of_lt small]
        exact ⟨lt_trans small (by decide), by dsimp only; decide⟩
      · rw [magnitude_of_le normal]
        dsimp only
        omega
    have value : n.natAbs = (magnitude x).mantissa * 2 ^ (magnitude x).exponent.toNat /
        2 ^ (-(magnitude x).exponent).toNat := by
      dsimp only at h
      split at h
      · cases h
        split
        · exact Int.natAbs_neg _
        · exact Int.natAbs_natCast _
      · cases h
    calc n.natAbs ≤ (magnitude x).mantissa * 2 ^ (magnitude x).exponent.toNat :=
          value ▸ Nat.div_le_self _ _
      _ ≤ (2 ^ 53 - 1) * 2 ^ 971 := by
          exact Nat.mul_le_mul (by omega) (two_pow_le (by omega))
      _ = 2 ^ 1024 - 2 ^ 971 := by
          rw [Nat.sub_mul, ← Nat.pow_add, one_mul]
  · cases h

lemma succ_natAbs_lt_of_toInt? (h : toInt? x = some n) : n.natAbs + 1 < 2 ^ 1024 - 2 ^ 970 := by
  have room {e : Nat} : 2 ^ (e + 3 + 54) - 2 ^ (e + 4) + 1 < 2 ^ (e + 3 + 54) - 2 ^ (e + 3) := by
    have pos := Nat.two_pow_pos e
    simp only [Nat.pow_add]
    omega
  replace room := @room 967
  simp only [Nat.reduceAdd] at room
  exact lt_of_le_of_lt (Nat.add_le_add_right (natAbs_le_of_toInt? h) 1) room

end Number

/-! ### Bits -/

/-- What an operator on bits makes of two integers in two's complement; a shift multiplies by a
power of two, or divides by it and rounds down. -/
def BinaryOp.Combines (op : BinaryOp) (x y z : Int) : Prop :=
  match op with
  | .bitAnd => ∀ i, z.testBit i = (x.testBit i && y.testBit i)
  | .bitOr => ∀ i, z.testBit i = (x.testBit i || y.testBit i)
  | .bitXor => ∀ i, z.testBit i = (x.testBit i ^^ y.testBit i)
  | .shiftLeft => 0 ≤ y ∧ z = x * 2 ^ y.toNat
  | .shiftRight => 0 ≤ y ∧ z = x.fdiv (2 ^ y.toNat)
  | _ => False

namespace Number

lemma testBit_bitAnd (x y : Int) (i : Nat) :
    (bitAnd x y).testBit i = (x.testBit i && y.testBit i) := by
  cases x <;> cases y <;> simp [bitAnd, Int.testBit] <;> grind

lemma testBit_bitOr (x y : Int) (i : Nat) :
    (bitOr x y).testBit i = (x.testBit i || y.testBit i) := by
  cases x <;> cases y <;> simp [bitOr, Int.testBit] <;> grind

lemma testBit_bitXor (x y : Int) (i : Nat) :
    (bitXor x y).testBit i = (x.testBit i ^^ y.testBit i) := by
  cases x <;> cases y <;> simp [bitXor, Int.testBit]

lemma testBit_bitNot (x : Int) (i : Nat) : (bitNot x).testBit i = !x.testBit i := by
  have same : bitNot x = x.lnot := by
    cases x <;> simp only [bitNot, Int.lnot, Int.ofNat_eq_natCast] <;> omega
  rw [same, Int.testBit_lnot]

lemma shiftLeft_eq (x : Int) (k : Nat) : shiftLeft x k = x * 2 ^ k := by
  unfold shiftLeft
  split
  · simp_all
  · simp

lemma shiftRight_eq (x : Int) (k : Nat) : shiftRight x k = x.fdiv (2 ^ k) := by
  have shift : shiftRight x k = x >>> k := by cases x <;> rfl
  rw [shift, Int.shiftRight_eq_div_pow, Int.fdiv_eq_ediv_of_nonneg _ (Int.pow_nonneg (by decide)),
    Int.natCast_pow]
  rfl

lemma natAbs_shiftRight_le (x : Int) (k : Nat) : (shiftRight x k).natAbs ≤ x.natAbs := by
  cases x with
  | ofNat m => exact Nat.shiftRight_le m k
  | negSucc m => exact Nat.succ_le_succ (Nat.shiftRight_le m k)

lemma le_natAbs_shiftLeft {x y : Int} (hx : x ≠ 0) (hy : shiftBound < y) :
    2 ^ 1024 - 2 ^ 970 ≤ (shiftLeft x y.toNat).natAbs := by
  have far : 1024 ≤ y.toNat := by
    simp only [shiftBound] at hy
    omega
  have size : (shiftLeft x y.toNat).natAbs = x.natAbs * 2 ^ y.toNat := by
    rw [shiftLeft_eq, Int.natAbs_mul, Int.natAbs_pow]
    rfl
  rw [size]
  calc 2 ^ 1024 - 2 ^ 970 ≤ 2 ^ 1024 := Nat.sub_le _ _
    _ ≤ 2 ^ y.toNat := two_pow_le far
    _ ≤ x.natAbs * 2 ^ y.toNat := Nat.le_mul_of_pos_left _ (Int.natAbs_pos.2 hx)

end Number

/-- The operators on bits. -/
def bitOperators : List BinaryOp :=
  [.bitAnd, .bitOr, .bitXor, .shiftLeft, .shiftRight]

/-- **The integers come out exactly.**  Only a shift by a negative count, and one to the left that is too
far, is not carried out. -/
theorem BinaryOp.onIntegers_cases {op} (hop : op ∈ bitOperators) (x y : Int) :
    (∃ z, op.Combines x y z ∧ op.onIntegers x y = .ok z) ∨
    (∃ z, op.Combines x y z ∧ op.onIntegers x y = .error (.resultTooLarge op.symbol) ∧
      2 ^ 1024 - 2 ^ 970 ≤ z.natAbs) ∨
    op ∈ [.shiftLeft, .shiftRight] ∧ y < 0 ∧ op.onIntegers x y = .error (.negativeShift y) := by
  simp only [bitOperators, mem_cons, not_mem_nil, or_false] at hop
  rcases hop with rfl | rfl | rfl | rfl | rfl
  · exact .inl ⟨_, testBit_bitAnd x y, rfl⟩
  · exact .inl ⟨_, testBit_bitOr x y, rfl⟩
  · exact .inl ⟨_, testBit_bitXor x y, rfl⟩
  · by_cases negative : y < 0
    · exact .inr (.inr ⟨by simp, negative, if_pos negative⟩)
    · have result : shiftLeft.Combines x y (Number.shiftLeft x y.toNat) :=
        ⟨Int.not_lt.1 negative, Number.shiftLeft_eq x y.toNat⟩
      simp only [onIntegers, if_neg negative]
      split
      · rename_i far
        exact .inr (.inl ⟨_, result, rfl, le_natAbs_shiftLeft far.1 far.2⟩)
      · exact .inl ⟨_, result, rfl⟩
  · by_cases negative : y < 0
    · exact .inr (.inr ⟨by simp, negative, if_pos negative⟩)
    · exact .inl ⟨_, ⟨Int.not_lt.1 negative, shiftRight_eq x y.toNat⟩, if_neg negative⟩

/-! ### Operators on numbers -/

namespace Heap

variable {h : Heap} {left right : Value} {a b : Float} {x y : Int} {op : BinaryOp}

lemma number?_of_payload (hv : left.payload = .raw (.number a)) : left.number? = some a := by
  cases left with
  | boxed | raw =>
    cases hv
    rfl
  | alien => cases hv

lemma binary_of_bitOperators (hop : op ∈ bitOperators) (hl : left.payload = .raw (.number a))
    (hr : right.payload = .raw (.number b)) (hx : toInt? a = some x)
    (hy : toInt? b = some y) :
    h.binary op left right = (op.onIntegers x y).bind fun z =>
      ((ofInt? z).map fun f => .wrap (left.isBoxed || right.isBoxed) (.number f)).elim
        (.error (.resultTooLarge op.symbol)) .ok := by
  have bits : h.binaryDatum op left right = h.bitwise op left right := by
    simp only [bitOperators, mem_cons, not_mem_nil, or_false] at hop
    rcases hop with rfl | rfl | rfl | rfl | rfl <;> rfl
  have first : h.integer op.symbol left = .ok x := by
    simp [integer, number?_of_payload hl, hx]
  have second : h.integer op.symbol right = .ok y := by
    simp [integer, number?_of_payload hr, hy]
  simp only [binary, bits, bitwise, number?_of_payload hl, number?_of_payload hr, Option.isSome_some,
    Bool.and_self, if_true, first, second, bind, Except.bind]
  cases op.onIntegers x y with
  | error e => rfl
  | ok z =>
    dsimp only
    cases ofInt? z <;> rfl

/-- An outcome is the number nearest to an integer, or the error that it is too large. -/
def GivesNearest (outcome : Except Fault Value) (dynamic : Bool) (symbol : String) (z : Int) : Prop :=
  (2 ^ 1024 - 2 ^ 970 ≤ z.natAbs ∧ outcome = .error (.resultTooLarge symbol)) ∨
    z.natAbs < 2 ^ 1024 - 2 ^ 970 ∧ ∃ f, ofInt? z = some f ∧
      outcome = .ok (.wrap dynamic (.number f))

lemma GivesNearest.isOk {outcome} {dynamic : Bool} {symbol} {z : Int}
    (h : GivesNearest outcome dynamic symbol z) (hz : z.natAbs < 2 ^ 1024 - 2 ^ 970) :
    ∃ v, outcome = .ok v := by
  rcases h with ⟨large, -⟩ | ⟨-, f, -, e⟩
  · exact absurd hz (not_lt.2 large)
  · exact ⟨_, e⟩

lemma exists_givesNearest (hop : op ∈ bitOperators) (hs : op ∈ [.shiftLeft, .shiftRight] → 0 ≤ y)
    (hl : left.payload = .raw (.number a)) (hr : right.payload = .raw (.number b))
    (hx : toInt? a = some x) (hy : toInt? b = some y) :
    ∃ z, op.Combines x y z ∧
      GivesNearest (h.binary op left right) (left.isBoxed || right.isBoxed) op.symbol z := by
  rw [binary_of_bitOperators hop hl hr hx hy]
  rcases op.onIntegers_cases hop x y with ⟨z, hz, e⟩ | ⟨z, hz, e, large⟩ | ⟨shift, negative, -⟩
  · refine ⟨z, hz, ?_⟩
    rw [e]
    cases converted : ofInt? z with
    | none => exact .inl ⟨ofInt?_eq_none_iff.1 converted, by simp [Except.bind, converted]⟩
    | some f =>
      have small : ¬ 2 ^ 1024 - 2 ^ 970 ≤ z.natAbs := by
        rw [← ofInt?_eq_none_iff, converted]
        exact Option.some_ne_none f
      exact .inr ⟨not_le.1 small, f, converted, by simp [Except.bind, converted]⟩
  · exact ⟨z, hz, .inl ⟨large, by rw [e]; rfl⟩⟩
  · exact absurd (hs shift) (Int.not_le.2 negative)

lemma exists_unary_bitNot (hl : left.payload = .raw (.number a)) (hx : toInt? a = some x) :
    ∃ f, ofInt? (-x - 1) = some f ∧
      h.unary .bitNot left = .ok (.wrap left.isBoxed (.number f)) := by
  have small : ¬ 2 ^ 1024 - 2 ^ 970 ≤ (-x - 1).natAbs := by
    have next : (-x - 1).natAbs ≤ x.natAbs + 1 := by omega
    exact not_le.2 (lt_of_le_of_lt next (succ_natAbs_lt_of_toInt? hx))
  rw [← ofInt?_eq_none_iff] at small
  obtain ⟨f, hf⟩ := Option.ne_none_iff_exists'.1 small
  refine ⟨f, hf, ?_⟩
  have operand : h.integer UnaryOp.bitNot.symbol left = .ok x := by
    simp [integer, number?_of_payload hl, hx]
  simp only [unary, number?_of_payload hl, unaryNumber, operand, bitNot]
  simp only [bind, Except.bind, hf]
  rfl

/-- **Operators on bits are exact.**  For two numbers that stand for integers: an operator on bits gives the
number nearest to the integer that it makes of them, unless that is too large to be a number, which is an
error of kinds of values.  What the bound on shifts refuses is too large; a shift of zero, and one to the
right, never is; a negative count is an error of kinds of values; and the complement of an integer is never
too large.  No other error arises. -/
theorem bit_operators_exact (h : Heap) (hl : left.payload = .raw (.number a))
    (hr : right.payload = .raw (.number b)) (hx : toInt? a = some x)
    (hy : toInt? b = some y) :
    (∀ op ∈ bitOperators, (op ∈ [.shiftLeft, .shiftRight] → 0 ≤ y) → ∃ z, op.Combines x y z ∧
      GivesNearest (h.binary op left right) (left.isBoxed || right.isBoxed) op.symbol z) ∧
    (x ≠ 0 → shiftBound < y → 2 ^ 1024 - 2 ^ 970 ≤ (x * 2 ^ y.toNat).natAbs) ∧
    (0 ≤ y → x = 0 → ∃ v, h.binary .shiftLeft left right = .ok v) ∧
    (0 ≤ y → ∃ v, h.binary .shiftRight left right = .ok v) ∧
    (y < 0 → ∀ op ∈ [.shiftLeft, .shiftRight], h.binary op left right = .error (.negativeShift y)) ∧
    (∃ f, ofInt? (-x - 1) = some f ∧ (∀ i, (-x - 1).testBit i = !x.testBit i) ∧
      h.unary .bitNot left = .ok (.wrap left.isBoxed (.number f))) ∧
    ∀ op ∈ bitOperators, ∀ e, h.binary op left right = .error e → e.category = .valueKind := by
  have nearest (op : BinaryOp) (hop : op ∈ bitOperators) (hs : op ∈ [.shiftLeft, .shiftRight] → 0 ≤ y) :=
    exists_givesNearest (h := h) hop hs hl hr hx hy
  have negative (hn : y < 0) : ∀ op ∈ [.shiftLeft, .shiftRight],
      h.binary op left right = .error (.negativeShift y) := by
    intro op hop
    have bits : op ∈ bitOperators := by
      simp only [mem_cons, not_mem_nil, or_false] at hop
      rcases hop with rfl | rfl <;> decide
    rw [binary_of_bitOperators bits hl hr hx hy]
    simp only [mem_cons, not_mem_nil, or_false] at hop
    rcases hop with rfl | rfl <;> simp [BinaryOp.onIntegers, hn, Except.bind]
  refine ⟨nearest, fun nonzero far => ?_, fun count zero => ?_, fun count => ?_, negative, ?_,
    fun op hop e he => ?_⟩
  · exact Number.shiftLeft_eq x y.toNat ▸ le_natAbs_shiftLeft nonzero far
  · obtain ⟨z, ⟨-, rfl⟩, gives⟩ := nearest .shiftLeft (by decide) fun _ => count
    refine gives.isOk ?_
    rw [zero, Int.zero_mul]
    exact Nat.zero_lt_of_lt (succ_natAbs_lt_of_toInt? hx)
  · obtain ⟨z, ⟨-, rfl⟩, gives⟩ := nearest .shiftRight (by decide) fun _ => count
    refine gives.isOk (lt_of_le_of_lt ?_ (Nat.lt_of_succ_lt (succ_natAbs_lt_of_toInt? hx)))
    exact shiftRight_eq x y.toNat ▸ natAbs_shiftRight_le x y.toNat
  · obtain ⟨f, hf, gives⟩ := exists_unary_bitNot (h := h) hl hx
    exact ⟨f, hf, testBit_bitNot x, gives⟩
  · by_cases shift : op ∈ [.shiftLeft, .shiftRight] ∧ y < 0
    · rw [negative shift.2 op shift.1] at he
      cases he
      rfl
    · obtain ⟨z, -, ⟨-, large⟩ | ⟨-, f, -, ok⟩⟩ := nearest op hop fun hs => Int.not_lt.1 fun hn => shift ⟨hs, hn⟩
      · rw [large] at he
        cases he
        rfl
      · rw [ok] at he
        cases he

/-- One, shifted by 1024 to the left and to the right. -/
theorem bit_operators_exact_shift :
    let x : Value := .boxed (.number (ofParts false (1023 * 2 ^ 52)))
    let y : Value := .raw (.number (ofParts false (1033 * 2 ^ 52)))
    toInt? (ofParts false (1023 * 2 ^ 52)) = some 1 ∧
    toInt? (ofParts false (1033 * 2 ^ 52)) = some 1024 ∧
    (∃ z, BinaryOp.shiftLeft.Combines 1 1024 z ∧
      GivesNearest (Heap.binary {} .shiftLeft x y) true "<<" z) ∧
    ∃ v, Heap.binary {} .shiftRight x y = .ok v := by
  have one : toInt? (ofParts false (1023 * 2 ^ 52)) = some 1 := by decide +kernel
  have many : toInt? (ofParts false (1033 * 2 ^ 52)) = some 1024 := by decide +kernel
  have boxed (f : Float) : (Value.boxed (.number f)).payload = .raw (.number f) := rfl
  have raw (f : Float) : (Value.raw (.number f)).payload = .raw (.number f) := rfl
  obtain ⟨nearest, -, -, right, -⟩ := bit_operators_exact {} (boxed _) (raw _) one many
  exact ⟨one, many, nearest .shiftLeft (by decide) fun _ => by decide, right (by decide)⟩

end Heap

end DynScript

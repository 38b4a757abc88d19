import DynScript.Number.Reading
import DynScript.Number.Text
import Mathlib.Algebra.Group.Nat.Defs
import Mathlib.Data.Nat.Log

/-!
# Integral numbers

A number that stands for an integer is written by the digits of that integer, and the digits read as the
number they were written for, since no rounding takes place: the nearest number to an integer that is a
number is that number itself.
-/

namespace DynScript.Number

open Float.Model Float.Model.UnpackedFloat

/-! ### Signs and parts of numbers -/

/-- The bits of a number. -/
abbrev Bits := BitVec Format.binary64.numBits

/-- The bits of a number that is not special, nor close to zero. -/
structure Normal (b : Bits) : Prop where
  low : unpackExponent b ≠ 0#11
  high : unpackExponent b ≠ -1#11

lemma toNat_unpackExponent (b : Bits) :
    (unpackExponent b).toNat = b.toNat / 2 ^ 52 % 2 ^ 11 := by
  simp [unpackExponent, Nat.shiftRight_eq_div_pow]

lemma toNat_unpackMantissa (b : Bits) :
    (unpackMantissa b).toNat = b.toNat % 2 ^ 52 := by
  simp [unpackMantissa]

lemma toNat_unpackSign (b : Bits) :
    (unpackSign b).toNat = b.toNat / 2 ^ 63 := by
  have bound : b.toNat < 2 ^ 64 := b.isLt
  have field : (unpackSign b).toNat = b.toNat / 2 ^ 63 % 2 := by
    delta unpackSign
    simp [Nat.shiftRight_eq_div_pow]
  omega

lemma toBitVec_ofBitVec (b) : (Sign.ofBitVec b).toBitVec = b := by
  revert b
  decide

lemma toNat_packComponents (s e m) :
    (packComponents .binary64 s e m).toNat =
      s.toBitVec.toNat * 2 ^ 63 + e.toNat * 2 ^ 52 + m.toNat := by
  have upper : (s.toBitVec ++ e).toNat = s.toBitVec.toNat * 2 ^ 11 + e.toNat := by
    rw [BitVec.toNat_append, ← Nat.shiftLeft_add_eq_or_of_lt e.isLt, Nat.shiftLeft_eq]
  have all : (packComponents .binary64 s e m).toNat = (s.toBitVec ++ e).toNat * 2 ^ 52 + m.toNat := by
    unfold packComponents
    rw [BitVec.toNat_append, ← Nat.shiftLeft_add_eq_or_of_lt m.isLt, Nat.shiftLeft_eq]
  rw [all, upper]
  omega

lemma packComponents_unpack (b) :
    packComponents .binary64 (.ofBitVec (unpackSign b)) (unpackExponent b) (unpackMantissa b) = b := by
  apply BitVec.eq_of_toNat_eq
  have bound : b.toNat < 2 ^ 64 := b.isLt
  rw [toNat_packComponents, toBitVec_ofBitVec, toNat_unpackSign, toNat_unpackExponent,
    toNat_unpackMantissa]
  omega

lemma toNat_one_append (m : BitVec 52) : (1#1 ++ m).toNat = 2 ^ 52 + m.toNat := by
  rw [BitVec.toNat_append, ← Nat.shiftLeft_add_eq_or_of_lt m.isLt]
  rfl

lemma one_append_pos (m : BitVec 52) : 0 < (1#1 ++ m).toNat := by
  rw [toNat_one_append]
  omega

variable {b : Bits}

lemma unpack_normal (h : Normal b) :
    UnpackedFloat.unpack .binary64 b = .finite (.ofBitVec (unpackSign b))
      (1#1 ++ unpackMantissa b).toNat ((unpackExponent b).toNat - 1075) (one_append_pos _) := by
  unfold UnpackedFloat.unpack
  dsimp only
  rw [if_neg h.high, if_neg h.low]
  rfl

lemma pack_normal (s : Sign) (h : Normal b) :
    UnpackedFloat.pack .binary64 (.finite s (1#1 ++ unpackMantissa b).toNat
        ((unpackExponent b).toNat - 1075) (one_append_pos _)) =
      packComponents .binary64 s (unpackExponent b) (unpackMantissa b) := by
  have mantissa := toNat_one_append (unpackMantissa b)
  have fraction : (unpackMantissa b).toNat < 2 ^ 52 := (unpackMantissa b).isLt
  have exponent : (((unpackExponent b).toNat : Int) - 1075 + Format.binary64.exponentBias +
      Format.binary64.mantissaBitsWithoutImplicit).toNat = (unpackExponent b).toNat := by
    show (_ - 1075 + (1023 : Int) + 52).toNat = _
    omega
  have small : ¬ 2 ^ Format.binary64.exponentBits ≤ (unpackExponent b).toNat + 1 := by
    have bound : (unpackExponent b).toNat < 2 ^ 11 := (unpackExponent b).isLt
    have high : (unpackExponent b).toNat ≠ 2 ^ 11 - 1 := fun h' => h.high (BitVec.eq_of_toNat_eq h')
    show ¬ 2 ^ 11 ≤ _
    omega
  have bits : (1#1 ++ unpackMantissa b).toNat.log2 + 1 = Format.binary64.mantissaBits := by
    have log : (1#1 ++ unpackMantissa b).toNat.log2 = 52 := by
      rw [Nat.log2_eq_iff (by omega)]
      omega
    rw [log]
    rfl
  unfold UnpackedFloat.pack
  dsimp only
  rw [exponent, if_neg small, if_pos bits]
  congr 1
  · simp
  · apply BitVec.eq_of_toNat_eq
    rw [BitVec.toNat_ofNat, mantissa]
    show (2 ^ 52 + (unpackMantissa b).toNat) % 2 ^ 52 = _
    omega

lemma toBits_ofBits {b : UInt64} (h : Normal b.toBitVec) : (Float.ofBits b).toBits = b := by
  show UInt64.ofBitVec (UnpackedFloat.pack .binary64 (UnpackedFloat.unpack .binary64 b.toBitVec)) = b
  rw [unpack_normal h, pack_normal _ h, packComponents_unpack]

lemma eq_of_toBits {x y : Float} (h : x.toBits = y.toBits) : x = y := by
  obtain ⟨⟨b, hb⟩⟩ := x
  obtain ⟨⟨c, hc⟩⟩ := y
  cases h
  rfl

lemma sign_positive (hb : b.toNat < 2 ^ 63) : Sign.ofBitVec (unpackSign b) = .positive := by
  have zero : unpackSign b = 0#1 := by
    apply BitVec.eq_of_toNat_eq
    rw [toNat_unpackSign]
    exact Nat.div_eq_of_lt hb
  rw [zero]
  rfl

lemma toNat_toBits_neg {b : UInt64} (h : Normal b.toBitVec) (hb : b.toNat < 2 ^ 63) :
    (-(Float.ofBits b)).toBits.toNat = 2 ^ 63 + b.toNat := by
  have bits : (-(Float.ofBits b)).toBits = UInt64.ofBitVec (UnpackedFloat.pack .binary64
      (UnpackedFloat.unpack .binary64 (Float.ofBits b).toBits.toBitVec).neg) := rfl
  rw [bits, toBits_ofBits h, unpack_normal h, sign_positive hb]
  show (UnpackedFloat.pack .binary64 (.finite .negative _ _ (one_append_pos _))).toNat = _
  rw [pack_normal _ h, toNat_packComponents, toNat_unpackExponent, toNat_unpackMantissa]
  show 1 * 2 ^ 63 + b.toNat / 2 ^ 52 % 2 ^ 11 * 2 ^ 52 + b.toNat % 2 ^ 52 = _
  omega

/-! ### Integers -/

lemma roundDiv_mul {d : Nat} (hd : 0 < d) (q : Nat) : roundDiv (q * d) d = q := by
  simp [roundDiv, Nat.mul_div_cancel _ hd, hd]

lemma log2_mul_two_pow {n : Nat} (hn : n ≠ 0) (k : Nat) : (n * 2 ^ k).log2 = n.log2 + k := by
  have pos := Nat.two_pow_pos k
  rw [Nat.log2_eq_iff (Nat.mul_ne_zero hn pos.ne')]
  constructor
  · rw [Nat.pow_add]
    exact Nat.mul_le_mul_right _ (Nat.log2_self_le hn)
  · rw [Nat.add_right_comm, Nat.pow_add]
    exact Nat.mul_lt_mul_of_pos_right Nat.lt_log2_self pos

lemma logRatio_one {n : Nat} (hn : n ≠ 0) : logRatio n 1 = n.log2 := by
  have reaches : 1 * Nat.pow 2 ((n.log2 : Int) - (0 : Nat)).toNat ≤
      n * Nat.pow 2 (-((n.log2 : Int) - (0 : Nat))).toNat := by
    have none : (-((n.log2 : Int) - (0 : Nat))).toNat = 0 := by omega
    have all : ((n.log2 : Int) - (0 : Nat)).toNat = n.log2 := by omega
    rw [none, all, one_mul]
    exact (Nat.log2_self_le hn).trans (Nat.le_mul_of_pos_right n Nat.one_pos)
  have one : Nat.log2 1 = 0 := by decide
  unfold logRatio
  dsimp only
  rw [one, if_pos reaches]
  omega

/-- **The number nearest to an integer that is a number**: its exponent and mantissa are those of the
integer. -/
theorem nearestBits_eq {biased fraction n : Nat} (hb : 1 ≤ biased) (hf : fraction < 2 ^ 52)
    (hn : n * 2 ^ (1075 - biased) = (2 ^ 52 + fraction) * 2 ^ (biased - 1075)) :
    nearestBits n 1 = biased * 2 ^ 52 + fraction := by
  have positive : n ≠ 0 := by
    rintro rfl
    have := Nat.two_pow_pos (biased - 1075)
    rw [Nat.zero_mul] at hn
    exact absurd hn.symm (Nat.mul_ne_zero (by omega) this.ne')
  -- The highest bit of the mantissa is the highest bit of the integer.
  have log : (n.log2 : Int) = biased - 1023 := by
    have whole : (2 ^ 52 + fraction).log2 = 52 := by
      rw [Nat.log2_eq_iff (by omega)]
      omega
    have same := congrArg Nat.log2 hn
    rw [log2_mul_two_pow positive, log2_mul_two_pow (by omega), whole] at same
    omega
  have exponent : max (logRatio n 1 - 52) (-1074) = (biased : Int) - 1075 := by
    rw [logRatio_one positive, log]
    omega
  have mantissa : roundDiv (n * Nat.pow 2 (-((biased : Int) - 1075)).toNat)
      (1 * Nat.pow 2 ((biased : Int) - 1075).toNat) = 2 ^ 52 + fraction := by
    have up : (-((biased : Int) - 1075)).toNat = 1075 - biased := by omega
    have down : ((biased : Int) - 1075).toNat = biased - 1075 := by omega
    rw [up, down, one_mul, Nat.pow_eq, Nat.pow_eq, hn]
    exact roundDiv_mul (Nat.two_pow_pos _) _
  unfold nearestBits
  dsimp only
  rw [if_neg positive, exponent, mantissa, Nat.pow_eq]
  omega

lemma exponent_of_isFinite (h : (UnpackedFloat.unpack .binary64 b).isFinite) :
    b.toNat / 2 ^ 52 % 2 ^ 11 ≠ 2047 := by
  intro special
  have all : unpackExponent b = -1#11 := by
    apply BitVec.eq_of_toNat_eq
    rw [toNat_unpackExponent, special]
    rfl
  unfold UnpackedFloat.unpack at h
  dsimp only at h
  rw [if_pos all] at h
  split at h <;> cases h

lemma normal_of_toNat (h0 : b.toNat / 2 ^ 52 % 2 ^ 11 ≠ 0)
    (h1 : b.toNat / 2 ^ 52 % 2 ^ 11 ≠ 2047) : Normal b := by
  rw [← toNat_unpackExponent] at h0 h1
  exact ⟨fun h => h0 (congrArg BitVec.toNat h), fun h => h1 (congrArg BitVec.toNat h)⟩

lemma magnitude_of_lt {x : Float} (h : x.toBits.toNat % 2 ^ 63 < 2 ^ 52) :
    magnitude x = ⟨x.toBits.toNat % 2 ^ 63, -1074⟩ := by
  unfold magnitude
  simp only [Nat.pow_eq, Nat.div_eq_of_lt h, Nat.mod_eq_of_lt h, if_true]

lemma magnitude_of_le {x : Float} (h : 2 ^ 52 ≤ x.toBits.toNat % 2 ^ 63) :
    magnitude x = ⟨2 ^ 52 + x.toBits.toNat % 2 ^ 63 % 2 ^ 52,
      (x.toBits.toNat % 2 ^ 63 / 2 ^ 52 : Nat) - 1075⟩ := by
  have normal : x.toBits.toNat % 2 ^ 63 / 2 ^ 52 ≠ 0 := by omega
  unfold magnitude
  simp only [Nat.pow_eq, if_neg normal]

lemma bits_of_toInt? {x} {n : Int} (h : toInt? x = some n) :
    x.toBits.toNat % 2 ^ 63 = 0 ∧ n = 0 ∨
    2 ^ 52 ≤ x.toBits.toNat % 2 ^ 63 ∧ x.toBits.toNat % 2 ^ 63 < infiniteBits ∧
      nearestBits n.natAbs 1 = x.toBits.toNat % 2 ^ 63 ∧ n ≠ 0 ∧ (isNegative x ↔ n < 0) := by
  unfold toInt? at h
  split at h
  · rename_i finite
    have special : x.toBits.toNat / 2 ^ 52 % 2 ^ 11 ≠ 2047 := exponent_of_isFinite finite
    have bound : x.toBits.toNat < 2 ^ 64 := x.toBits.toBitVec.isLt
    dsimp only at h
    split at h
    · rename_i divides
      cases h
      rcases lt_or_ge (x.toBits.toNat % 2 ^ 63) (2 ^ 52) with small | normal
      · -- Below the normal numbers only zero is integral.
        rw [magnitude_of_lt small] at divides ⊢
        have zero {k : Nat} (hk : 52 ≤ k) (hd : x.toBits.toNat % 2 ^ 63 % Nat.pow 2 k = 0) :
            x.toBits.toNat % 2 ^ 63 = 0 := by
          rwa [Nat.mod_eq_of_lt] at hd
          exact lt_of_lt_of_le small (Nat.pow_le_pow_right (by decide) hk)
        replace zero := zero (by decide : 52 ≤ (- -1074 : Int).toNat) divides
        refine .inl ⟨zero, ?_⟩
        rw [zero, Nat.zero_mul, Nat.zero_div]
        split <;> rfl
      · rw [magnitude_of_le normal] at divides ⊢
        generalize hb : x.toBits.toNat % 2 ^ 63 / 2 ^ 52 = biased at divides ⊢
        generalize hf : x.toBits.toNat % 2 ^ 63 % 2 ^ 52 = fraction at divides ⊢
        have up : (-((biased : Int) - 1075)).toNat = 1075 - biased := by omega
        have down : ((biased : Int) - 1075).toNat = biased - 1075 := by omega
        simp only [up, down, Nat.pow_eq] at divides ⊢
        generalize hq : (2 ^ 52 + fraction) * 2 ^ (biased - 1075) / 2 ^ (1075 - biased) = q
        have exact : q * 2 ^ (1075 - biased) = (2 ^ 52 + fraction) * 2 ^ (biased - 1075) := by
          rw [← hq]
          exact Nat.div_mul_cancel (Nat.dvd_mul_right_of_dvd (Nat.dvd_of_mod_eq_zero divides) _)
        have nearest := nearestBits_eq (by omega) (by omega) exact
        have positive : q ≠ 0 := by
          rintro rfl
          rw [Nat.zero_mul] at exact
          exact absurd exact.symm (Nat.mul_ne_zero (by omega) (Nat.two_pow_pos _).ne')
        refine .inr ⟨normal, ?_, ?_, ?_, ?_⟩
        · show _ < 2047 * 2 ^ 52
          omega
        · have abs : (if isNegative x = true then -(q : Int) else q).natAbs = q := by
            split <;> simp
          rw [abs, nearest]
          omega
        · split <;> omega
        · split <;> rename_i sign
          · exact iff_of_true sign (by omega)
          · exact iff_of_false sign (by omega)
    · cases h
  · cases h

/-! ### Digits -/

lemma isDigit_of_mem_toDigits {n : Nat} {c} (h : c ∈ Nat.toDigits 10 n) : isDigit c := by
  have digit := Nat.isDigit_of_mem_toDigits (by decide) (by decide) h
  simpa [isDigit, Char.isDigit, Char.le_def] using digit

lemma ofDigits_toDigits (n : Nat) : ofDigits (Nat.toDigits 10 n) = n := by
  have read := Nat.ofDigitChars_ten_toDigits (n := n)
  rwa [Nat.ofDigitChars_eq_foldl] at read

lemma ofLiteral_toDigits (n : Nat) : ofLiteral (Nat.toDigits 10 n) [] =
    if n = 0 then ofParts false 0 else ofRatio false n 1 := by
  unfold ofLiteral ofDecimal
  simp only [List.append_nil, ofDigits_toDigits, List.length_nil]
  split
  · rfl
  · rw [if_neg (by decide), if_neg (by omega)]
    simp [Decimal.ratio]

/-- A number that stands for the integer `n`, which is below ten to the sixteenth; the negative zero
does not count. -/
structure Whole (x : Float) (n : Int) : Prop where
  value : toInt? x = some n
  small : n.natAbs < 10 ^ 16
  sign : n = 0 → isNegative x = false

namespace Whole

variable {x : Float} {n : Int}

lemma text (h : Whole x n) : Number.text x = integerText n := by
  have finite : x.isFinite = true := by
    have value := h.value
    unfold toInt? at value
    split at value
    · assumption
    · cases value
  have special : x.isNaN = false ∧ x.isInf = false := by
    change (UnpackedFloat.unpack .binary64 x.toBits.toBitVec).isFinite = true at finite
    change (UnpackedFloat.unpack .binary64 x.toBits.toBitVec).isNaN = false ∧
      (UnpackedFloat.unpack .binary64 x.toBits.toBitVec).isInf = false
    cases hu : UnpackedFloat.unpack .binary64 x.toBits.toBitVec with
    | infinity _ | notANumber =>
      rw [hu] at finite
      cases finite
    | zero _ | finite _ _ _ _ => exact ⟨rfl, rfl⟩
  unfold Number.text
  rw [special.1, special.2, h.value]
  exact if_pos h.small

/-- **Digits read back as the number that they were written for**, a minus sign in front of them
makes it negative. -/
theorem read (h : Whole x n) : x = if n < 0 then -(ofLiteral (Nat.toDigits 10 n.natAbs) [])
    else ofLiteral (Nat.toDigits 10 n.natAbs) [] := by
  have bound : x.toBits.toNat < 2 ^ 64 := x.toBits.toBitVec.isLt
  rcases bits_of_toInt? h.value with ⟨zero, rfl⟩ | ⟨low, high, nearest, nonzero, sign⟩
  · have positive : ¬ 2 ^ 63 ≤ x.toBits.toNat := of_decide_eq_false (h.sign rfl)
    rw [if_neg (by decide), ofLiteral_toDigits]
    apply eq_of_toBits
    apply UInt64.toNat_inj.1
    show _ = 0
    omega
  · rw [ofLiteral_toDigits, if_neg (Int.natAbs_ne_zero.2 nonzero), ofRatio, nearest,
      min_eq_left (le_of_lt high)]
    change _ < 2047 * 2 ^ 52 at high
    generalize hb : x.toBits.toNat % 2 ^ 63 = bits at low high
    have small : bits < 2 ^ 63 := by omega
    have parts : ofParts false bits = Float.ofBits (UInt64.ofNat bits) := rfl
    have toNat : (UInt64.ofNat bits).toNat = bits := UInt64.toNat_ofNat_of_lt (lt_trans small (by decide))
    have normal : Normal (UInt64.ofNat bits).toBitVec := by
      apply normal_of_toNat <;> rw [UInt64.toNat_toBitVec, toNat] <;> omega
    rw [parts]
    apply eq_of_toBits
    apply UInt64.toNat_inj.1
    have negative : 2 ^ 63 ≤ x.toBits.toNat ↔ n < 0 := by
      rw [← sign]
      exact decide_eq_true_iff.symm
    split
    · rw [toNat_toBits_neg normal (by rwa [toNat]), toNat]
      omega
    · rw [toBits_ofBits normal, toNat]
      omega

end Whole

end DynScript.Number

import InfixFormula.Decimal.FloatText
import InfixFormula.Proofs.LiteralValue
import InfixFormula.Proofs.Rounding

/-!
# The double nearest to a decimal

A decimal fraction is read by one division where its digits and the power of ten are doubles themselves, and
on unpacked values otherwise.  Both ways give the nearest double (`ofScientific_eq_pack`): in the first, the
two operands are unpacked to just the numbers that they stand for (`unpack_ofUInt64`, `unpack_powerOfTen`).

A magnitude that was taken from the exponent and fraction of a double is packed into these again
(`toNat_toBits_pack`).
-/

namespace InfixFormula.Double

open Float.Model (Format UnpackedFloat totalExponent)
open Float.Model.UnpackedFloat

theorem toNat_append {m n : ℕ} (a : BitVec m) (b : BitVec n) :
    (a ++ b).toNat = a.toNat * 2 ^ n + b.toNat := by
  rw [BitVec.toNat_append, ← Nat.shiftLeft_add_eq_or_of_lt b.isLt, Nat.shiftLeft_eq]

/-- The bits of a positive double are the fields of its exponent and its mantissa. -/
theorem toNat_packComponents (a : BitVec 11) (b : BitVec 52) :
    (packComponents Format.binary64 .positive a b).toNat = a.toNat * 2 ^ 52 + b.toNat := by
  have hsign : (Sign.toBitVec .positive).toNat = 0 := rfl
  unfold packComponents
  rw [toNat_append, toNat_append, hsign, Nat.zero_mul, Nat.zero_add]

/-- A mantissa with all places is packed without its leading one. -/
theorem pack_of_full {M b : ℕ} {E : ℤ} (hM : IsCanonical M E) (hfull : 2 ^ 52 ≤ M)
    (hb : E = b - 1075) (hlt : b < 2047) :
    UnpackedFloat.pack Format.binary64 (.finite .positive M E hM.pos) =
      packComponents Format.binary64 .positive (BitVec.ofNat 11 b) (BitVec.ofNat 52 M) := by
  have hlog : M.log2 = 52 := (Nat.log2_eq_iff hM.pos.ne').mpr ⟨hfull, hM.lt⟩
  have hbiased : (E + 1023 + 52).toNat = b := by omega
  simp only [UnpackedFloat.pack, Format.exponentBias, Format.mantissaBits, hlog]
  simp [hbiased]
  omega

/-- A mantissa with places left is packed in full, with the exponent field zero. -/
theorem pack_of_lt {M : ℕ} {E : ℤ} (hM : IsCanonical M E) (hlt : M < 2 ^ 52) :
    UnpackedFloat.pack Format.binary64 (.finite .positive M E hM.pos) =
      packComponents Format.binary64 .positive 0#11 (BitVec.ofNat 52 M) := by
  have hlog : M.log2 < 52 := (Nat.log2_lt hM.pos.ne').mpr hlt
  have hleast : E = -1074 := hM.full.resolve_left (by omega)
  have hbiased : (E + 1023 + 52).toNat = 1 := by omega
  simp only [UnpackedFloat.pack, Format.exponentBias, Format.mantissaBits]
  simp [hbiased]
  omega

/-- A mantissa with all places is unpacked as it was packed. -/
theorem unpack_pack {M : ℕ} {E : ℤ} (hM : IsCanonical M E) (hfull : 2 ^ 52 ≤ M) (hE : E ≤ 971) :
    (Float.Model.pack (.finite .positive M E hM.pos)).unpack = .finite .positive M E hM.pos := by
  have hle := hM.le
  obtain ⟨b, hb⟩ : ∃ b : ℕ, E = b - 1075 := ⟨(E + 1075).toNat, by omega⟩
  have hexponent : (BitVec.ofNat 11 b).toNat = b := by
    rw [BitVec.toNat_ofNat, Nat.mod_eq_of_lt (by omega)]
  have hzero : BitVec.ofNat 11 b ≠ 0#11 := by
    intro h
    have hnat := congrArg BitVec.toNat h
    rw [hexponent] at hnat
    simp at hnat
    omega
  have hones : BitVec.ofNat 11 b ≠ -1#11 := by
    intro h
    have hnat := congrArg BitVec.toNat h
    rw [hexponent] at hnat
    simp at hnat
    omega
  have hmantissa : (1#1 ++ BitVec.ofNat 52 M).toNat = M := by
    have hlt := hM.lt
    rw [toNat_append, BitVec.toNat_ofNat]
    simp
    omega
  have hbias : (Format.binary64.exponentBias : ℤ) = 1023 := rfl
  unfold Float.Model.unpack Float.Model.pack UnpackedFloat.unpack
  simp only [pack_of_full hM hfull hb (by omega), unpackExponent_packComponents,
    unpackMantissa_packComponents, unpackSign_packComponents, Sign.ofBitVec_toBitVec, hones, hzero,
    if_false, hmantissa, hexponent, hbias]
  congr 1
  push_cast
  omega

/-- A natural number of at most 53 places, with zeros behind it that fill all places. -/
theorem exists_canonical_natural {m : ℕ} (hm : 0 < m) (hlt : m < 2 ^ 53) :
    ∃ s : ℕ, m.log2 + s = 52 ∧ 2 ^ 52 ≤ m * 2 ^ s ∧ IsCanonical (m * 2 ^ s) (-(s : ℤ)) := by
  have hlog : m.log2 < 53 := (Nat.log2_lt hm.ne').mpr hlt
  obtain ⟨s, hs⟩ : ∃ s : ℕ, m.log2 + s = 52 := ⟨52 - m.log2, by omega⟩
  have hlow : 2 ^ 52 ≤ m * 2 ^ s := by
    rw [← hs, pow_add]
    exact Nat.mul_le_mul_right _ (Nat.log2_self_le hm.ne')
  have hhigh : m * 2 ^ s < 2 ^ 53 := by
    rw [show 53 = m.log2 + 1 + s by omega, pow_add]
    exact Nat.mul_lt_mul_of_pos_right Nat.lt_log2_self (Nat.two_pow_pos s)
  exact ⟨s, hs, hlow, by positivity, hhigh, by omega, .inl hlow⟩

/-- Such a number is not rounded. -/
theorem ofUInt64_eq {m s : ℕ} (hm : 0 < m) (hlt : m < 2 ^ 53) (hs : m.log2 + s = 52)
    (hM : IsCanonical (m * 2 ^ s) (-(s : ℤ))) :
    UnpackedFloat.ofUInt64 Format.binary64 m.toUInt64 =
      .finite .positive (m * 2 ^ s) (-(s : ℤ)) hM.pos := by
  have hnat : m.toUInt64.toNat = m := by
    simp
    omega
  have htarget : Format.binary64.targetExponent (totalExponent m 0) = -(s : ℤ) := by
    rw [targetExponent_eq]
    omega
  have hshift : (- -(s : ℤ)).toNat = s := by omega
  have hcompare : compare (m : ℤ) 0 = .gt := Int.compare_eq_gt.mpr (by omega)
  rw [UnpackedFloat.ofUInt64, UnpackedFloat.ofNat, UnpackedFloat.ofInt, hnat, UnpackedFloat.normalize,
    hcompare]
  simp only [UnpackedFloat.round, Int.toNat_natCast, htarget, decreaseExponent, hshift,
    Nat.shiftLeft_eq, zero_sub]
  exact roundWithAccuracy_exact hM .positive

/-- A natural number of at most 53 places is a double. -/
theorem unpack_ofUInt64 {m : ℕ} (hm : 0 < m) (hlt : m < 2 ^ 53) :
    ∃ (M : ℕ) (E : ℤ) (hM : 0 < M),
      (Float.Model.ofUInt64 m.toUInt64).unpack = .finite .positive M E hM ∧ (M : ℚ) * 2 ^ E = m := by
  obtain ⟨s, hs, hfull, hM⟩ := exists_canonical_natural hm hlt
  refine ⟨m * 2 ^ s, -(s : ℤ), hM.pos, ?_, ?_⟩
  · rw [Float.Model.ofUInt64, ofUInt64_eq hm hlt hs hM]
    exact unpack_pack hM hfull (by omega)
  · push_cast
    rw [zpow_neg, zpow_natCast]
    field_simp

/-- Whether the value is the power of ten. -/
def isPowerOfTen (k : ℕ) : UnpackedFloat → Bool
  | .finite .positive m e _ => m * 2 ^ e.toNat == 10 ^ k * 2 ^ (-e).toNat
  | _ => false

/-- The entries of the table are the powers of ten. -/
theorem isPowerOfTen_unpack (k : ℕ) (hk : k < Float.exactlyRepresentablePowersOfTen.size) :
    isPowerOfTen k Float.exactlyRepresentablePowersOfTen[k].toModel.unpack = true := by
  revert k
  decide +kernel

/-- The power of ten is a double, if it is no greater than `10 ^ 22`. -/
theorem unpack_powerOfTen (k : ℕ) (hk : k < Float.exactlyRepresentablePowersOfTen.size) :
    ∃ (P : ℕ) (F : ℤ) (hP : 0 < P),
      Float.exactlyRepresentablePowersOfTen[k].toModel.unpack = .finite .positive P F hP ∧
        (P : ℚ) * 2 ^ F = 10 ^ k := by
  have hpower := isPowerOfTen_unpack k hk
  generalize Float.exactlyRepresentablePowersOfTen[k].toModel.unpack = u at hpower ⊢
  cases u with
  | infinity s => cases hpower
  | notANumber => cases hpower
  | zero s => cases hpower
  | finite s P F hP =>
      cases s with
      | negative => cases hpower
      | positive =>
          refine ⟨P, F, hP, rfl, ?_⟩
          have hcast : (P : ℚ) * 2 ^ F.toNat = 10 ^ k * 2 ^ (-F).toNat := by
            exact_mod_cast beq_iff_eq.mp hpower
          rcases Int.le_total 0 F with hF | hF
          · obtain ⟨n, rfl⟩ := Int.eq_ofNat_of_zero_le hF
            simpa using hcast
          · obtain ⟨n, hn⟩ := Int.eq_ofNat_of_zero_le (Int.neg_nonneg.mpr hF)
            obtain rfl : F = -(n : ℤ) := by omega
            rw [zpow_neg, zpow_natCast]
            simp at hcast
            rw [hcast]
            field_simp

/-- **A decimal fraction is read as the nearest double.** -/
theorem ofScientific_eq_pack {m k M : ℕ} {E : ℤ} (hm : 0 < m) (hk : k ≤ 2048) (hM : IsCanonical M E)
    (hy : RoundsTo ((m : ℚ) / 10 ^ k / 2 ^ E) M E) :
    Float.ofScientific m true k = Float.ofModel (Float.Model.pack (.finite .positive M E hM.pos)) := by
  unfold Float.ofScientific
  split
  · next h =>
      -- Number and power of ten are doubles, and the quotient is rounded once.
      obtain ⟨N, D, hN, hunpack, hvalue⟩ := unpack_ofUInt64 hm h.1
      obtain ⟨P, F, hP, hunpack', hvalue'⟩ := unpack_powerOfTen k (by
        have hsize : Float.exactlyRepresentablePowersOfTen.size = 23 := rfl
        omega)
      rw [← hvalue, ← hvalue'] at hy
      have hdiv := div_eq hN hP hM hy
      rw [← hunpack, ← hunpack'] at hdiv
      exact congrArg (fun u => Float.ofModel (Float.Model.pack u)) hdiv
  · exact congrArg (fun u => Float.ofModel (Float.Model.pack u)) (ofScientific_eq hm hk hM hy)

section Fields

open Decimal (Magnitude)

variable {exponent fraction : ℕ}

/-- The fields of a finite double other than zero give its magnitude in canonical form. -/
theorem isCanonical_ofFields (hfraction : fraction < 2 ^ 52) (hne : ¬ (exponent = 0 ∧ fraction = 0)) :
    IsCanonical (Magnitude.ofFields exponent fraction).significand
      ((Magnitude.ofFields exponent fraction).exponent - 1074) := by
  unfold Magnitude.ofFields
  by_cases hzero : exponent = 0
  · simp only [hzero, if_true]
    exact ⟨by omega, by omega, by omega, by omega⟩
  · have hpow : Nat.pow 2 52 = 2 ^ 52 := rfl
    simp only [hzero, if_false, hpow]
    exact ⟨by omega, by omega, by omega, by omega⟩

/-- The magnitude is packed into the bits that it was taken from. -/
theorem toNat_toBits_pack (hexponent : exponent < 2047) (hfraction : fraction < 2 ^ 52)
    (hne : ¬ (exponent = 0 ∧ fraction = 0)) :
    (Float.Model.pack (.finite .positive (Magnitude.ofFields exponent fraction).significand
      ((Magnitude.ofFields exponent fraction).exponent - 1074)
      (isCanonical_ofFields hfraction hne).pos)).toBits.toNat = exponent * 2 ^ 52 + fraction := by
  generalize isCanonical_ofFields hfraction hne = hM
  revert hM
  unfold Float.Model.pack Magnitude.ofFields
  by_cases hzero : exponent = 0
  · simp only [hzero, if_true]
    intro hM
    rw [pack_of_lt hM hfraction, UInt64.toNat_ofBitVec, toNat_packComponents, BitVec.toNat_ofNat]
    simp
    omega
  · have hpow : Nat.pow 2 52 = 2 ^ 52 := rfl
    simp only [hzero, if_false, hpow]
    intro hM
    rw [pack_of_full (b := exponent) hM (by omega) (by omega) hexponent, UInt64.toNat_ofBitVec,
      toNat_packComponents, BitVec.toNat_ofNat, BitVec.toNat_ofNat]
    omega

end Fields

end InfixFormula.Double

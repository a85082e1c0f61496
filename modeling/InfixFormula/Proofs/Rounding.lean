import Mathlib

/-!
# Rounding to the nearest double

A double's magnitude is `M * 2 ^ E`.  Arithmetic on doubles computes a mantissa with two residual bits, which
say whether half a unit is left and whether anything is left beyond it.  Such a mantissa stands for a range
of numbers (`StandsFor`), and shifting it keeps what rounding needs to know.

Among the magnitudes that doubles have (`IsCanonical`) rounding finds the one nearest to the number, and the
even one of two at the same distance (`RoundsTo`).  This is shown once for the last step that all operations
share (`roundWithAccuracy_eq`), and then for division (`div_eq`) and for reading decimals (`ofScientific_eq`).
Numbers that are rounded to zero or beyond the largest double have no part in it.
-/

namespace InfixFormula.Double

open Float.Model (Format UnpackedFloat totalExponent)
open Float.Model.UnpackedFloat

/-- The mantissa is the whole part of `y`, and the two residual bits say how many halves are left and
whether anything is left beyond them. -/
def StandsFor (em : ExtendedMantissa) (y : ℚ) : Prop :=
  ∃ rest : ℚ, 2 * y = 2 * em.mantissa + em.roundBit.toNat + rest ∧ 0 ≤ rest ∧ rest < 1 ∧
    (em.stickyBit = true ↔ 0 < rest)

namespace StandsFor

variable {em : ExtendedMantissa} {y : ℚ}

/-- Shifting by one place keeps what was shifted out in the two extra bits. -/
theorem shiftRightOne (h : StandsFor em y) : StandsFor em.shiftRightOne (y / 2) := by
  obtain ⟨m, r, s⟩ := em
  obtain ⟨rest, hy, hnonneg, hlt, hsticky⟩ := h
  have hdiv : (m : ℚ) = 2 * (m / 2 : ℕ) + (m % 2 : ℕ) := by exact_mod_cast (Nat.div_add_mod m 2).symm
  have hbit : ((m % 2 != 0).toNat : ℚ) = (m % 2 : ℕ) := by
    rcases Nat.mod_two_eq_zero_or_one m with h | h <;> simp [h]
  refine ⟨(r.toNat + rest) / 2, ?_, ?_, ?_, ?_⟩
  · simp only [ExtendedMantissa.shiftRightOne, hbit] at hy ⊢
    linarith
  · positivity
  · cases r <;> simp <;> linarith
  · cases r <;> cases s <;> simp_all [ExtendedMantissa.shiftRightOne] <;> linarith

/-- However far the mantissa is shifted, the extra bits tell how the rest compares with a half. -/
theorem shiftRight (h : StandsFor em y) (n : ℕ) : StandsFor (em >>> n) (y / 2 ^ n) := by
  induction n with
  | zero => simpa [HShiftRight.hShiftRight, Nat.repeat] using h
  | succ n ih =>
      have hstep := ih.shiftRightOne
      rwa [div_div, ← pow_succ] at hstep

/-- The mantissa is the whole part. -/
theorem mantissa_le (h : StandsFor em y) : (em.mantissa : ℚ) ≤ y := by
  obtain ⟨rest, hy, hnonneg, -, -⟩ := h
  have hbit : (0 : ℚ) ≤ em.roundBit.toNat := Nat.cast_nonneg _
  linarith

theorem lt_mantissa_add_one (h : StandsFor em y) : y < em.mantissa + 1 := by
  obtain ⟨rest, hy, -, hlt, -⟩ := h
  have hbit : (em.roundBit.toNat : ℚ) ≤ 1 := by exact_mod_cast em.roundBit.toNat_le
  linarith

/-- The rounded mantissa is the nearest natural number, and the even one of two. -/
theorem roundedMantissa_eq (h : StandsFor em y) {M : ℕ} (hlow : (M : ℚ) - 1 / 2 ≤ y)
    (hhigh : y ≤ M + 1 / 2) (hodd : M % 2 = 1 → (M : ℚ) - 1 / 2 < y ∧ y < M + 1 / 2) :
    em.roundedMantissa = M := by
  obtain ⟨m, r, s⟩ := em
  obtain ⟨rest, hy, hnonneg, hlt, hsticky⟩ := h
  cases r with
  | false =>
      -- Less than half a unit is left.
      simp at hy
      have hcast : (2 * M : ℚ) < 2 * m + 2 ∧ (2 * m : ℚ) ≤ 2 * M + 1 := ⟨by linarith, by linarith⟩
      have hnat : 2 * M < 2 * m + 2 ∧ 2 * m ≤ 2 * M + 1 := by exact_mod_cast hcast
      have hm : m = M := by omega
      cases s <;> exact hm
  | true =>
      simp at hy
      cases s with
      | false =>
          -- Just half a unit is left, and only an even number takes it.
          have hrest : rest = 0 := le_antisymm (not_lt.mp (fun hpos => by simp [hpos] at hsticky)) hnonneg
          have hcast : (M : ℚ) ≤ m + 1 ∧ (m : ℚ) ≤ M := ⟨by linarith, by linarith⟩
          have hnat : M ≤ m + 1 ∧ m ≤ M := by exact_mod_cast hcast
          have heven : M % 2 = 0 := by
            by_contra hM
            obtain ⟨hlow', hhigh'⟩ := hodd (by omega)
            have hcast' : (M : ℚ) < m + 1 ∧ (m : ℚ) < M := ⟨by linarith, by linarith⟩
            have hnat' : M < m + 1 ∧ m < M := by exact_mod_cast hcast'
            omega
          show m + m % 2 = M
          omega
      | true =>
          -- More than half a unit is left.
          have hpos : 0 < rest := hsticky.mp rfl
          have hcast : (2 * M : ℚ) < 2 * m + 3 ∧ (m : ℚ) < M := ⟨by linarith, by linarith⟩
          have hnat : 2 * M < 2 * m + 3 ∧ m < M := by exact_mod_cast hcast
          show m + 1 = M
          omega

end StandsFor

/-- What is left of a quotient is told by its remainder. -/
theorem standsFor_fraction (a : ℕ) {b : ℕ} (hb : 0 < b) :
    StandsFor (ExtendedMantissa.ofMantissaAndAccuracy (a / b) (accuracyOfFraction (a % b) b))
      (a / b) := by
  have hbpos : (0 : ℚ) < b := by exact_mod_cast hb
  have hsplit : (a : ℚ) / b = (a / b : ℕ) + (a % b : ℕ) / b := by
    have hcast : (a : ℚ) = b * (a / b : ℕ) + (a % b : ℕ) := by exact_mod_cast (Nat.div_add_mod a b).symm
    field_simp
    exact hcast
  have hmod : ((a % b : ℕ) : ℚ) < b := by exact_mod_cast Nat.mod_lt a hb
  rw [hsplit]
  generalize a / b = m at *
  generalize a % b = k at *
  unfold accuracyOfFraction
  by_cases hk : k = 0
  · rw [if_pos hk, hk]
    exact ⟨0, by simp [ExtendedMantissa.ofMantissaAndAccuracy], le_refl _, one_pos,
      by simp [ExtendedMantissa.ofMantissaAndAccuracy]⟩
  · have hkpos : (0 : ℚ) < k := by exact_mod_cast Nat.pos_of_ne_zero hk
    rw [if_neg hk]
    cases hcompare : compare (2 * k) b with
    | lt =>
        have hlt : (2 * k : ℚ) < b := by exact_mod_cast Nat.compare_eq_lt.mp hcompare
        refine ⟨2 * k / b, ?_, by positivity, by rwa [div_lt_one hbpos], ?_⟩
        · simp [ExtendedMantissa.ofMantissaAndAccuracy]
          ring
        · simpa [ExtendedMantissa.ofMantissaAndAccuracy] using by positivity
    | eq =>
        have heq : (2 * k : ℚ) = b := by exact_mod_cast Nat.compare_eq_eq.mp hcompare
        refine ⟨0, ?_, le_refl _, one_pos, ?_⟩
        · simp [ExtendedMantissa.ofMantissaAndAccuracy, ← heq]
          field_simp
        · simp [ExtendedMantissa.ofMantissaAndAccuracy]
    | gt =>
        have hgt : (b : ℚ) < 2 * k := by exact_mod_cast Nat.compare_eq_gt.mp hcompare
        refine ⟨2 * k / b - 1, ?_, ?_, ?_, ?_⟩
        · simp [ExtendedMantissa.ofMantissaAndAccuracy]
          ring
        · rw [sub_nonneg, one_le_div hbpos]
          exact hgt.le
        · rw [sub_lt_iff_lt_add, div_lt_iff₀ hbpos]
          linarith
        · simpa [ExtendedMantissa.ofMantissaAndAccuracy, one_lt_div hbpos] using hgt

/-- The magnitudes `M * 2 ^ E` of finite doubles in the form in which their bits give them: all 53 places
of the mantissa are used, or the exponent is the least one. -/
structure IsCanonical (M : ℕ) (E : ℤ) : Prop where
  pos : 0 < M
  lt : M < 2 ^ 53
  le : -1074 ≤ E
  full : 2 ^ 52 ≤ M ∨ E = -1074

/-- Of the doubles, `M * 2 ^ E` is nearest to `y * 2 ^ E`.  At half way to a neighbour the even mantissa is
taken, and below the least mantissa the neighbour is only half as far away. -/
structure RoundsTo (y : ℚ) (M : ℕ) (E : ℤ) : Prop where
  low : (M : ℚ) - 1 / 2 ≤ y
  high : y ≤ M + 1 / 2
  odd : M % 2 = 1 → (M : ℚ) - 1 / 2 < y ∧ y < M + 1 / 2
  near : M = 2 ^ 52 → -1074 < E → (M : ℚ) - 1 / 4 ≤ y

section Shifts

variable {m : ℕ} {e : ℤ} {accuracy : Accuracy} {y : ℚ}

/-- The exponent leaves 53 bits for the mantissa, as far as the least exponent allows. -/
theorem targetExponent_eq (m : ℕ) (e : ℤ) :
    Format.binary64.targetExponent (totalExponent m e) = max (m.log2 + e - 52) (-1074) := by
  simp only [Format.targetExponent, totalExponent, Format.mantissaBits, Format.minExponent]
  norm_num
  omega

theorem mantissa_ofMantissaAndAccuracy (m : ℕ) (accuracy : Accuracy) :
    (ExtendedMantissa.ofMantissaAndAccuracy m accuracy).mantissa = m := by
  rcases accuracy with _ | o
  · rfl
  · cases o <;> rfl

/-- A mantissa in canonical form stays as it is. -/
theorem shift_canonical {M : ℕ} {E : ℤ} (h : IsCanonical M E) :
    shiftToTargetExponent Format.binary64 M E .exact = (⟨M, false, false⟩, E) := by
  have hlog : M.log2 < 53 := (Nat.log2_lt h.pos.ne').mpr h.lt
  have hle := h.le
  have htarget : (Format.binary64.targetExponent (totalExponent M E) - E).toNat = 0 := by
    rw [targetExponent_eq]
    omega
  simp [shiftToTargetExponent, shiftToExponent, htarget, HShiftRight.hShiftRight, Nat.repeat,
    ExtendedMantissa.ofMantissaAndAccuracy]

/-- A mantissa that needs one more place is halved. -/
theorem shift_carry {E : ℤ} (h : -1074 ≤ E) :
    shiftToTargetExponent Format.binary64 (2 ^ 53) E .exact = (⟨2 ^ 52, false, false⟩, E + 1) := by
  have htarget : (Format.binary64.targetExponent (totalExponent (2 ^ 53) E) - E).toNat = 1 := by
    rw [targetExponent_eq, Nat.log2_two_pow]
    omega
  simp only [shiftToTargetExponent, shiftToExponent, htarget]
  rfl

/-- The first shift, with the mantissa that it is rounded to. -/
theorem roundWithAccuracy_of_shift (h : StandsFor (ExtendedMantissa.ofMantissaAndAccuracy m accuracy) y)
    {n R : ℕ} (htarget : Format.binary64.targetExponent (totalExponent m e) = e + n)
    (hlow : (R : ℚ) - 1 / 2 ≤ y / 2 ^ n) (hhigh : y / 2 ^ n ≤ R + 1 / 2)
    (hodd : R % 2 = 1 → (R : ℚ) - 1 / 2 < y / 2 ^ n ∧ y / 2 ^ n < R + 1 / 2) (s : Sign) :
    roundWithAccuracy Format.binary64 s m e accuracy =
      let final := shiftToTargetExponent Format.binary64 R (e + n) .exact
      if h : final.1.mantissa = 0 then .zero s
      else .finite s final.1.mantissa final.2 (Nat.pos_of_ne_zero h) := by
  have hshift : shiftToTargetExponent Format.binary64 m e accuracy =
      (ExtendedMantissa.ofMantissaAndAccuracy m accuracy >>> n, e + n) := by
    have hn : (e + n - e).toNat = n := by omega
    rw [shiftToTargetExponent, htarget, shiftToExponent, hn]
  have hrounded := (h.shiftRight n).roundedMantissa_eq hlow hhigh hodd
  unfold roundWithAccuracy
  rw [hshift]
  simp only [hrounded]

/-- The whole part tells the order of magnitude. -/
theorem log2_of_standsFor (h : StandsFor (ExtendedMantissa.ofMantissaAndAccuracy m accuracy) y) {k : ℕ}
    (hlow : (2 : ℚ) ^ k ≤ y) (hhigh : y < 2 ^ (k + 1)) : m.log2 = k := by
  have hle := h.mantissa_le
  have hlt := h.lt_mantissa_add_one
  rw [mantissa_ofMantissaAndAccuracy] at hle hlt
  have hcast : ((2 ^ k : ℕ) : ℚ) < (m + 1 : ℕ) ∧ (m : ℚ) < (2 ^ (k + 1) : ℕ) := by
    push_cast
    exact ⟨by linarith, by linarith⟩
  have hnat : 2 ^ k < m + 1 ∧ m < 2 ^ (k + 1) := by exact_mod_cast hcast
  have hpos : 0 < 2 ^ k := Nat.two_pow_pos k
  exact (Nat.log2_eq_iff (by omega)).mpr ⟨by omega, hnat.2⟩

/-- The mantissa of a number below `2 ^ k` has at most `k` bits. -/
theorem log2_lt_of_standsFor (h : StandsFor (ExtendedMantissa.ofMantissaAndAccuracy m accuracy) y) {k : ℕ}
    (hk : 0 < k) (hhigh : y < 2 ^ k) : m.log2 < k := by
  have hle := h.mantissa_le
  rw [mantissa_ofMantissaAndAccuracy] at hle
  have hnat : m < 2 ^ k := by
    have hcast : (m : ℚ) < (2 ^ k : ℕ) := by
      push_cast
      linarith
    exact_mod_cast hcast
  by_cases hm : m = 0
  · simpa [hm] using hk
  · exact (Nat.log2_lt hm).mpr hnat

/-- A mantissa in canonical form is not rounded. -/
theorem roundWithAccuracy_exact {M : ℕ} {E : ℤ} (h : IsCanonical M E) (s : Sign) :
    roundWithAccuracy Format.binary64 s M E .exact = .finite s M E h.pos := by
  unfold roundWithAccuracy
  simp only [shift_canonical h]
  have hrounded : ExtendedMantissa.roundedMantissa ⟨M, false, false⟩ = M := rfl
  simp only [hrounded, shift_canonical h]
  exact dif_neg h.pos.ne'

/-- If the exponent is the least one or leaves no place unused, then the mantissa is shifted to it. -/
theorem targetExponent_eq_add (h : StandsFor (ExtendedMantissa.ofMantissaAndAccuracy m accuracy) y)
    {n : ℕ} (hle : -1074 ≤ e + n) (hhigh : y / 2 ^ n < 2 ^ 53)
    (hfull : 2 ^ 52 ≤ y / 2 ^ n ∨ e + n = -1074) :
    Format.binary64.targetExponent (totalExponent m e) = e + n := by
  have hpow : (0 : ℚ) < 2 ^ n := by positivity
  rw [targetExponent_eq]
  by_cases hlow : (2 : ℚ) ^ 52 ≤ y / 2 ^ n
  · have hlog : m.log2 = 52 + n := by
      rw [le_div_iff₀ hpow, ← pow_add] at hlow
      rw [div_lt_iff₀ hpow, ← pow_add] at hhigh
      exact log2_of_standsFor h hlow (by rwa [show 52 + n + 1 = 53 + n by omega])
    omega
  · have hlog : m.log2 < 52 + n := by
      rw [not_le, div_lt_iff₀ hpow, ← pow_add] at hlow
      exact log2_lt_of_standsFor h (by omega) hlow
    have hleast := hfull.resolve_left hlow
    omega

/-- Just below a power of two the mantissa is rounded up to one place more, and has the least mantissa of
the next exponent. -/
theorem roundWithAccuracy_of_carry
    (h : StandsFor (ExtendedMantissa.ofMantissaAndAccuracy m accuracy) y) {k : ℕ}
    (hle : -1074 ≤ e + k) (hlow : 2 ^ 53 - 1 / 2 ≤ y / 2 ^ k) (hhigh : y / 2 ^ k < 2 ^ 53) (s : Sign) :
    roundWithAccuracy Format.binary64 s m e accuracy =
      .finite s (2 ^ 52) (e + k + 1) (Nat.two_pow_pos 52) := by
  have htarget := targetExponent_eq_add h hle hhigh (.inl (by linarith))
  rw [roundWithAccuracy_of_shift h htarget (R := 2 ^ 53) (by push_cast; linarith)
    (by push_cast; linarith) (by simp), shift_carry hle]
  rfl

/-- Only the least mantissa is nearest to anything below it. -/
theorem IsCanonical.eq_of_lt {M : ℕ} {E : ℤ} (hM : IsCanonical M E) (hmin : -1074 < E)
    (hlow : (M : ℚ) - 1 / 2 ≤ y) (hsmall : y < 2 ^ 52) : M = 2 ^ 52 := by
  have hfull : 2 ^ 52 ≤ M := hM.full.resolve_right hmin.ne'
  have hcast : (M : ℚ) < (2 ^ 52 + 1 : ℕ) := by
    push_cast
    linarith
  have hnat : M < 2 ^ 52 + 1 := by exact_mod_cast hcast
  omega

/-- **Rounding finds the nearest double.**  What stands for `y` at the exponent `e` is rounded to the
double that is nearest to `y * 2 ^ e`, if `e` leaves places enough. -/
theorem roundWithAccuracy_eq (h : StandsFor (ExtendedMantissa.ofMantissaAndAccuracy m accuracy) y)
    {M n : ℕ} (hM : IsCanonical M (e + n)) (hy : RoundsTo (y / 2 ^ n) M (e + n))
    (hplaces : -1074 < e + n → y / 2 ^ n < 2 ^ 52 → 0 < n) (s : Sign) :
    roundWithAccuracy Format.binary64 s m e accuracy = .finite s M (e + n) hM.pos := by
  by_cases hbelow : y / 2 ^ n < 2 ^ 52 ∧ -1074 < e + n
  · -- The first shift leaves one place more, and rounding carries into it.
    obtain ⟨hsmall, hmin⟩ := hbelow
    have hn := hplaces hmin hsmall
    obtain ⟨k, rfl⟩ : ∃ k, n = k + 1 := ⟨n - 1, by omega⟩
    obtain rfl := hM.eq_of_lt hmin hy.low hsmall
    have hnear := hy.near rfl hmin
    have hhalf : y / 2 ^ k = 2 * (y / 2 ^ (k + 1)) := by
      rw [pow_succ]
      field_simp
    push_cast at hnear hmin
    have hle : -1074 ≤ e + (k : ℤ) := by omega
    rw [roundWithAccuracy_of_carry h hle (by linarith) (by linarith)]
    simp [add_assoc]
  · have hlt : (M : ℚ) + 1 ≤ 2 ^ 53 := by exact_mod_cast hM.lt
    have hhigh := hy.high
    have hle := hM.le
    have hfull : 2 ^ 52 ≤ y / 2 ^ n ∨ e + n = -1074 := by
      by_cases hsmall : y / 2 ^ n < 2 ^ 52
      · have hmin : ¬ -1074 < e + (n : ℤ) := fun hmin => hbelow ⟨hsmall, hmin⟩
        exact .inr (by omega)
      · exact .inl (not_lt.mp hsmall)
    have htarget := targetExponent_eq_add h hle (by linarith) hfull
    rw [roundWithAccuracy_of_shift h htarget hy.low hy.high hy.odd, shift_canonical hM]
    exact dif_neg hM.pos.ne'

end Shifts

section Operations

variable {M : ℕ} {E : ℤ}

/-- A quotient that is small has a dividend that is not much larger than the divisor. -/
theorem log2_sub_le_of_quotient {m₁ m₂ : ℕ} {e₁ e₂ k : ℤ} (h₁ : 0 < m₁) (h₂ : 0 < m₂)
    (h : (m₁ : ℚ) * 2 ^ e₁ / (m₂ * 2 ^ e₂) < 2 ^ k) :
    (m₁.log2 : ℤ) + e₁ - (m₂.log2 + e₂) ≤ k := by
  have htwo : (2 : ℚ) ≠ 0 := two_ne_zero
  have hlow : (2 : ℚ) ^ m₁.log2 ≤ m₁ := by exact_mod_cast Nat.log2_self_le h₁.ne'
  have hhigh : (m₂ : ℚ) < 2 ^ (m₂.log2 + 1) := by exact_mod_cast Nat.lt_log2_self
  have hpos₁ : (0 : ℚ) < 2 ^ e₁ := by positivity
  have hpos₂ : (0 : ℚ) < 2 ^ e₂ := by positivity
  have hm₂ : (0 : ℚ) < m₂ := by exact_mod_cast h₂
  rw [div_lt_iff₀ (by positivity)] at h
  have hpowers : (2 : ℚ) ^ ((m₁.log2 : ℤ) + e₁) < 2 ^ (k + ((m₂.log2 : ℤ) + 1 + e₂)) := by
    calc (2 : ℚ) ^ ((m₁.log2 : ℤ) + e₁) = 2 ^ m₁.log2 * 2 ^ e₁ := by rw [zpow_add₀ htwo, zpow_natCast]
      _ ≤ m₁ * 2 ^ e₁ := by gcongr
      _ < 2 ^ k * (m₂ * 2 ^ e₂) := h
      _ < 2 ^ k * (2 ^ (m₂.log2 + 1) * 2 ^ e₂) := by gcongr
      _ = 2 ^ (k + ((m₂.log2 : ℤ) + 1 + e₂)) := by
          rw [zpow_add₀ htwo, zpow_add₀ htwo ((m₂.log2 : ℤ) + 1), ← zpow_natCast]
          push_cast
          rfl
  have hexponents := (zpow_lt_zpow_iff_right₀ one_lt_two).mp hpowers
  omega

/-- **Division finds the nearest double.** -/
theorem div_eq {m₁ m₂ : ℕ} {e₁ e₂ : ℤ} (h₁ : 0 < m₁) (h₂ : 0 < m₂) (hM : IsCanonical M E)
    (hy : RoundsTo ((m₁ : ℚ) * 2 ^ e₁ / (m₂ * 2 ^ e₂) / 2 ^ E) M E) :
    div Format.binary64 (.finite .positive m₁ e₁ h₁) (.finite .positive m₂ e₂ h₂) =
      .finite .positive M E hM.pos := by
  have htwo : (2 : ℚ) ≠ 0 := two_ne_zero
  have hpos : (0 : ℚ) < 2 ^ E := by positivity
  have hbound : ∀ k : ℤ, (m₁ : ℚ) * 2 ^ e₁ / (m₂ * 2 ^ e₂) / 2 ^ E < 2 ^ k →
      (m₁.log2 : ℤ) + e₁ - (m₂.log2 + e₂) ≤ k + E := by
    intro k hk
    rw [div_lt_iff₀ hpos, ← zpow_add₀ htwo] at hk
    exact log2_sub_le_of_quotient h₁ h₂ hk
  have hlarge := hbound 53 (by
    have hlt : (M : ℚ) + 1 ≤ 2 ^ 53 := by exact_mod_cast hM.lt
    have hhigh := hy.high
    norm_num at hlt ⊢
    linarith)
  have hmin := hM.le
  -- The quotient is taken at an exponent below `E`, and below that of the dividend.
  generalize he : min (e₁ - e₂) (Format.binary64.targetExponent
    (totalExponent m₁ e₁ - totalExponent m₂ e₂)) = e
  have hformat : Format.binary64.targetExponent (totalExponent m₁ e₁ - totalExponent m₂ e₂) =
      max ((m₁.log2 : ℤ) + e₁ - (m₂.log2 + e₂) - 53) (-1074) := by
    simp only [Format.targetExponent, totalExponent, Format.mantissaBits, Format.minExponent]
    norm_num
    omega
  rw [hformat] at he
  obtain ⟨n, rfl⟩ : ∃ n : ℕ, E = e + n := ⟨(E - e).toNat, by omega⟩
  obtain ⟨s, hs⟩ : ∃ s : ℕ, e₁ - e₂ = e + s := ⟨(e₁ - e₂ - e).toNat, by omega⟩
  have hstands := standsFor_fraction (m₁ <<< s) h₂
  have hvalue : (m₁ : ℚ) * 2 ^ e₁ / (m₂ * 2 ^ e₂) / 2 ^ (e + (n : ℤ)) =
      ((m₁ <<< s : ℕ) : ℚ) / m₂ / 2 ^ n := by
    have hm₂ : (m₂ : ℚ) ≠ 0 := by exact_mod_cast h₂.ne'
    rw [show e₁ = e + s + e₂ by omega, zpow_add₀ htwo, zpow_add₀ htwo, zpow_add₀ htwo, zpow_natCast,
      zpow_natCast, Nat.shiftLeft_eq]
    push_cast
    field_simp
  rw [hvalue] at hy hbound
  have hplaces : -1074 < e + (n : ℤ) → ((m₁ <<< s : ℕ) : ℚ) / m₂ / 2 ^ n < 2 ^ 52 → 0 < n := by
    intro hmin hsmall
    have hsmaller := hbound 52 (by exact_mod_cast hsmall)
    omega
  have hcore : divCore Format.binary64 m₁ e₁ m₂ e₂ =
      (m₁ <<< s / m₂, e, accuracyOfFraction (m₁ <<< s % m₂) m₂) := by
    have hshift : (e₁ - e₂ - e).toNat = s := by omega
    simp only [divCore, hformat, he, hshift]
  rw [div, hcore]
  exact roundWithAccuracy_eq hstands hM hy hplaces .positive

theorem standsFor_exact (m : ℕ) : StandsFor (ExtendedMantissa.ofMantissaAndAccuracy m .exact) m := by
  have h := standsFor_fraction m one_pos
  rw [Nat.div_one, Nat.mod_one, Nat.cast_one, div_one] at h
  exact h

/-- A natural number is rounded to the nearest double, if places are added first. -/
theorem roundWithAccuracy_natural {m : ℕ} (hm : 0 < m) (hM : IsCanonical M E)
    (hy : RoundsTo ((m : ℚ) / 2 ^ E) M E) :
    roundWithAccuracy Format.binary64 .positive (m * 2 ^ 53) (-53) .exact =
      .finite .positive M E hM.pos := by
  have hpos : (0 : ℚ) < 2 ^ E := by positivity
  have hlarge : -53 < E := by
    have hone : (1 : ℚ) ≤ m := by exact_mod_cast hm
    have hlt : (M : ℚ) + 1 ≤ 2 ^ 53 := by exact_mod_cast hM.lt
    have hhigh := hy.high
    rw [div_le_iff₀ hpos] at hhigh
    have hpowers : (2 : ℚ) ^ (0 : ℤ) < 2 ^ (53 + E) := by
      rw [zpow_add₀ two_ne_zero, zpow_zero]
      norm_num at hlt ⊢
      nlinarith
    have hexponents := (zpow_lt_zpow_iff_right₀ one_lt_two).mp hpowers
    omega
  obtain ⟨n, rfl⟩ : ∃ n : ℕ, E = -53 + n := ⟨(E + 53).toNat, by omega⟩
  have hvalue : (m : ℚ) / 2 ^ (-53 + (n : ℤ)) = ((m * 2 ^ 53 : ℕ) : ℚ) / 2 ^ n := by
    rw [zpow_add₀ two_ne_zero, zpow_natCast, zpow_neg]
    push_cast
    field_simp
  rw [hvalue] at hy
  exact roundWithAccuracy_eq (standsFor_exact _) hM hy (fun _ _ => by omega) .positive

/-- **Decimals are read as the nearest double.** -/
theorem ofScientific_eq {m k : ℕ} (hm : 0 < m) (hk : k ≤ 2048) (hM : IsCanonical M E)
    (hy : RoundsTo ((m : ℚ) / 10 ^ k / 2 ^ E) M E) :
    UnpackedFloat.ofScientific Format.binary64 m (Int.negOfNat k) = .finite .positive M E hM.pos := by
  have hneg : Int.negOfNat k = -(k : ℤ) := by cases k <;> rfl
  have hbelow : ¬ -(k : ℤ) > 2 ^ Format.binary64.exponentBits := by norm_num
  have habove : ¬ -(k : ℤ) < -((2 ^ Format.binary64.exponentBits : ℤ) + m.log2) := by
    norm_num
    omega
  unfold UnpackedFloat.ofScientific
  rw [dif_neg hm.ne', hneg, if_neg hbelow, if_neg habove]
  by_cases hzero : k = 0
  · subst hzero
    rw [pow_zero, div_one] at hy
    have hround := roundWithAccuracy_natural hm hM hy
    have hsign : (.positive * .positive : Sign) = .positive := rfl
    simpa [mul, hsign, Format.mantissaBits, Nat.shiftLeft_eq] using hround
  · have htoNat : (- -(k : ℤ)).toNat = k := by omega
    rw [if_neg (by omega)]
    apply div_eq _ _ hM
    simpa [htoNat] using hy

end Operations

end InfixFormula.Double

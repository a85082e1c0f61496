import InfixFormula.Proofs.NearestDouble

/-!
# The text of a double reads back

The positional text of a number of units is a decimal that is worth as much (`ofUnits`).  For a double it is
taken from the interval of what is rounded to it (`Magnitude.roundsTo_of_contains`), so reading it gives the
double again, bit by bit (`exists_toFloat_eq`).  Doubles with a sign are left out.
-/

namespace InfixFormula

namespace Decimal

theorem digitsValue_eq (digits : Text) : digitsValue digits = Nat.ofDigitChars 10 digits 0 := rfl

/-- Digits behind others move those up by as many places. -/
theorem digitsValue_append (s t : Text) :
    digitsValue (s ++ t) = 10 ^ t.length * digitsValue s + digitsValue t := by
  rw [digitsValue_eq, Nat.ofDigitChars_append, Nat.ofDigitChars_eq_ofDigitChars_zero]
  rfl

/-- Zeros are worth nothing. -/
theorem digitsValue_replicate_zero (k : ℕ) : digitsValue (List.replicate k '0') = 0 := by
  rw [digitsValue_eq, Nat.ofDigitChars_replicate_zero, Nat.mul_zero]

/-- The digits of a number are worth the number. -/
theorem digitsValue_ofNat (n : ℕ) : digitsValue (Text.ofNat n) = n :=
  Nat.ofDigitChars_toDigits (by decide) (le_refl 10)

/-- Zeros in front do not count. -/
theorem digitsValue_padded (width n : ℕ) : digitsValue (padded width n) = n := by
  rw [padded, digitsValue_append, digitsValue_replicate_zero, digitsValue_ofNat, mul_zero, zero_add]

theorem isDigit_of_mem_ofNat {n : ℕ} {c : Char} (hc : c ∈ Text.ofNat n) : c.isDigit = true :=
  Nat.isDigit_of_mem_toDigits (by decide) (le_refl 10) hc

/-- Numbers and the zeros in front of them are written in digits. -/
theorem isDigit_of_mem_padded {width n : ℕ} {c : Char} (hc : c ∈ padded width n) :
    c.isDigit = true := by
  rcases List.mem_append.mp hc with hc | hc
  · rw [List.eq_of_mem_replicate hc]
    rfl
  · exact isDigit_of_mem_ofNat hc

/-- A number that fits is padded to the full width. -/
theorem length_padded {width n : ℕ} (hwidth : 0 < width) (h : n < 10 ^ width) :
    (padded width n).length = width := by
  have hle : (Text.ofNat n).length ≤ width :=
    (Nat.length_toDigits_le_iff (by decide) hwidth).mpr h
  simp [padded]
  omega

/-- Nothing but zeros is dropped. -/
theorem dropTrailingZeros_append (digits : Text) :
    ∃ k, dropTrailingZeros digits ++ List.replicate k '0' = digits := by
  have hsplit : digits.reverse.takeWhile (· == '0') ++ digits.reverse.dropWhile (· == '0') = digits.reverse :=
    List.takeWhile_append_dropWhile
  have hzeros : digits.reverse.takeWhile (· == '0') =
      List.replicate (digits.reverse.takeWhile (· == '0')).length '0' := by
    apply List.eq_replicate_of_mem
    intro c hc
    simpa using List.all_eq_true.mp (List.all_takeWhile (p := (· == '0'))) c hc
  refine ⟨(digits.reverse.takeWhile (· == '0')).length, ?_⟩
  rw [← List.reverse_replicate, ← hzeros, dropTrailingZeros, ← List.reverse_append, hsplit,
    List.reverse_reverse]

/-- The decimal that stands for `n` units of `10 ^ (-places)`. -/
def ofUnits (n places : ℕ) : Decimal :=
  ⟨false, Text.ofNat (n / 10 ^ places), dropTrailingZeros (padded places (n % 10 ^ places))⟩

/-- The positional text is the text of this decimal, without a point where no digit stands behind it. -/
theorem text_ofUnits (n places : ℕ) : (ofUnits n places).text = positional n places := by
  unfold positional
  have hpow : Nat.pow 10 places = 10 ^ places := rfl
  rw [hpow]
  simp only [text, ofUnits, magnitudeText]
  cases dropTrailingZeros (padded places (n % 10 ^ places)) <;> simp

example : (ofUnits 1250 2).text = "12.5".toList := by decide +kernel

example : (ofUnits 7 4).text = "0.0007".toList := by decide +kernel

/-- The digits behind the point, and the zeros that are not written. -/
theorem fraction_ofUnits (n places : ℕ) : ∃ k, (ofUnits n places).fraction.length + k = places ∧
    10 ^ k * digitsValue (ofUnits n places).fraction = n % 10 ^ places := by
  by_cases hplaces : places = 0
  · subst hplaces
    have hempty : (ofUnits n 0).fraction = [] := by
      rw [ofUnits, pow_zero, Nat.mod_one]
      rfl
    rw [hempty]
    exact ⟨0, rfl, by rw [pow_zero, Nat.mod_one]; rfl⟩
  · have hlt : n % 10 ^ places < 10 ^ places := Nat.mod_lt _ (by positivity)
    obtain ⟨k, hk⟩ := dropTrailingZeros_append (padded places (n % 10 ^ places))
    have hlength := congrArg List.length hk
    have hvalue := congrArg digitsValue hk
    rw [length_padded (by omega) hlt] at hlength
    rw [digitsValue_padded, digitsValue_append, digitsValue_replicate_zero] at hvalue
    simp at hlength hvalue
    exact ⟨k, hlength, hvalue⟩

/-- The decimal that stands for a number of units can be written down. -/
theorem isNumber_ofUnits (n places : ℕ) : (ofUnits n places).IsNumber where
  whole c hc := isDigit_of_mem_ofNat hc
  fraction c hc := by
    obtain ⟨k, hk⟩ := dropTrailingZeros_append (padded places (n % 10 ^ places))
    have hmem : c ∈ padded places (n % 10 ^ places) := by
      rw [← hk]
      exact List.mem_append_left _ hc
    exact isDigit_of_mem_padded hmem
  digits := .inl Nat.toDigits_ne_nil

/-- The digits that are written and the place of the point give the number of units. -/
theorem value_ofUnits (n places : ℕ) :
    (digitsValue ((ofUnits n places).whole ++ (ofUnits n places).fraction) : ℚ) /
      10 ^ (ofUnits n places).fraction.length = n / 10 ^ places := by
  obtain ⟨k, hplaces, hvalue⟩ := fraction_ofUnits n places
  have hwhole : digitsValue (ofUnits n places).whole = n / 10 ^ places := digitsValue_ofNat _
  have hunits : (n : ℚ) = 10 ^ places * (n / 10 ^ places : ℕ) + (n % 10 ^ places : ℕ) := by
    exact_mod_cast (Nat.div_add_mod n (10 ^ places)).symm
  rw [digitsValue_append, hwhole, hunits, ← hvalue]
  generalize n / 10 ^ places = w
  generalize (ofUnits n places).fraction = f at *
  subst hplaces
  push_cast
  rw [pow_add]
  field_simp

namespace Magnitude

variable {m : Magnitude} {n : ℕ}

/-- The interval in quarters of the last place of the significand. -/
theorem exists_quarter (m : Magnitude) : ∃ q : ℕ, 0 < q ∧
    (4 * q : ℚ) = 10 ^ m.places * 2 ^ ((m.exponent : ℤ) - 1074) ∧
    m.interval = ⟨4 * m.significand * q, (4 * m.significand - if m.nearBelow then 1 else 2) * q,
      (4 * m.significand + 2) * q, m.significand % 2 == 0⟩ := by
  have htwo : (2 : ℚ) ≠ 0 := two_ne_zero
  unfold interval places
  by_cases hexponent : m.exponent < 1076
  · refine ⟨5 ^ (1076 - m.exponent), by positivity, ?_, by simp [hexponent, Nat.pow_eq]⟩
    have hsplit : (m.exponent : ℤ) - 1074 = 2 - (1076 - m.exponent : ℕ) := by omega
    rw [hsplit, zpow_sub₀ htwo, zpow_natCast, show (10 : ℚ) = 5 * 2 by norm_num, mul_pow]
    push_cast
    field_simp
  · refine ⟨2 ^ (m.exponent - 1076), by positivity, ?_, by simp [hexponent, Nat.pow_eq]⟩
    have hsplit : (m.exponent : ℤ) - 1074 = 2 + (m.exponent - 1076 : ℕ) := by omega
    have hplaces : 1076 - m.exponent = 0 := by omega
    rw [hsplit, hplaces, zpow_add₀ htwo, zpow_natCast]
    push_cast
    norm_num

/-- A double lies in the interval of what is rounded to it. -/
theorem contains_value (hpos : 0 < m.significand) :
    m.interval.contains m.interval.value = true := by
  obtain ⟨q, hq, -, hinterval⟩ := m.exists_quarter
  have hlow : (4 * m.significand - if m.nearBelow then 1 else 2) * q < 4 * m.significand * q := by
    apply Nat.mul_lt_mul_of_pos_right _ hq
    split <;> omega
  have hhigh : 4 * m.significand * q < (4 * m.significand + 2) * q :=
    Nat.mul_lt_mul_of_pos_right (by omega) hq
  rw [hinterval]
  simp only [Interval.contains, hlow, hlow.le, hhigh, hhigh.le]
  simp

/-- **The interval holds what reads back.**  What lies in it is rounded to the magnitude. -/
theorem roundsTo_of_contains (hpos : 0 < m.significand)
    (hnear : m.significand = 2 ^ 52 → 0 < m.exponent → m.nearBelow = true)
    (hn : m.interval.contains n = true) :
    Double.RoundsTo ((n : ℚ) / 10 ^ m.places / 2 ^ ((m.exponent : ℤ) - 1074)) m.significand
      (m.exponent - 1074) := by
  obtain ⟨q, hq, hunit, hinterval⟩ := m.exists_quarter
  have hqpos : (0 : ℚ) < 4 * q := by positivity
  rw [hinterval] at hn
  rw [div_div, ← hunit]
  generalize hk : (if m.nearBelow then 1 else 2) = k at hn
  have hle : k ≤ 2 := by grind
  have hclosed : (4 * m.significand - k) * q ≤ n ∧ n ≤ (4 * m.significand + 2) * q := by
    grind [Interval.contains]
  have hopen : m.significand % 2 = 1 →
      (4 * m.significand - k) * q < n ∧ n < (4 * m.significand + 2) * q := by
    grind [Interval.contains]
  have hcast : ((4 * m.significand - k : ℕ) : ℚ) = 4 * m.significand - k := by
    rw [Nat.cast_sub (by omega)]
    push_cast
    rfl
  have hclosed' : (4 * m.significand - k : ℚ) * q ≤ n ∧ (n : ℚ) ≤ (4 * m.significand + 2) * q := by
    rw [← hcast]
    exact_mod_cast hclosed
  have hopen' : m.significand % 2 = 1 →
      (4 * m.significand - k : ℚ) * q < n ∧ (n : ℚ) < (4 * m.significand + 2) * q := by
    rw [← hcast]
    exact_mod_cast hopen
  have hkq : (k * q : ℚ) ≤ 2 * q := by
    gcongr
    exact_mod_cast hle
  constructor
  · rw [le_div_iff₀ hqpos]
    linarith
  · rw [div_le_iff₀ hqpos]
    linarith
  · intro hodd
    rw [lt_div_iff₀ hqpos, div_lt_iff₀ hqpos]
    obtain ⟨hlow, hhigh⟩ := hopen' hodd
    constructor <;> linarith
  · intro hleast hmin
    obtain rfl : k = 1 := by grind
    rw [le_div_iff₀ hqpos]
    push_cast at hclosed'
    linarith

/-- The shortest decimal that reads back as the magnitude. -/
def decimal (m : Magnitude) : Decimal := ofUnits m.interval.shortest m.places

theorem text_decimal (m : Magnitude) : m.decimal.text = m.text := text_ofUnits _ _

/-- No double needs more than 2048 digits behind the point. -/
theorem length_fraction_decimal_le (m : Magnitude) : m.decimal.fraction.length ≤ 2048 := by
  obtain ⟨k, hk, -⟩ := fraction_ofUnits m.interval.shortest m.places
  have hplaces : m.places ≤ 1076 := Nat.sub_le _ _
  have hlength : m.decimal.fraction.length + k = m.places := hk
  omega

/-- The text of a magnitude is rounded to the double that has it. -/
theorem toFloat_decimal {m : Magnitude}
    (hM : Double.IsCanonical m.significand ((m.exponent : ℤ) - 1074))
    (hnear : m.significand = 2 ^ 52 → 0 < m.exponent → m.nearBelow = true) :
    m.decimal.toFloat = Float.ofModel (Float.Model.pack (.finite .positive m.significand
      ((m.exponent : ℤ) - 1074) hM.pos)) := by
  have hrounds := roundsTo_of_contains hM.pos hnear (Interval.contains_shortest (contains_value hM.pos))
  rw [← value_ofUnits] at hrounds
  have hdigits : 0 < digitsValue (m.decimal.whole ++ m.decimal.fraction) := by
    by_contra hzero
    have hlow := hrounds.low
    have hone : (1 : ℚ) ≤ m.significand := by exact_mod_cast hM.pos
    have hvalue : digitsValue (m.decimal.whole ++ m.decimal.fraction) = 0 := by omega
    rw [decimal] at hvalue
    rw [hvalue] at hlow
    norm_num at hlow
    linarith
  exact Double.ofScientific_eq_pack hdigits m.length_fraction_decimal_le hM hrounds

/-- Below the least significand, the doubles lie twice as close. -/
theorem nearBelow_ofFields {exponent fraction : ℕ}
    (hleast : (ofFields exponent fraction).significand = 2 ^ 52)
    (hmin : 0 < (ofFields exponent fraction).exponent) :
    (ofFields exponent fraction).nearBelow = true := by
  have hpow : Nat.pow 2 52 = 2 ^ 52 := rfl
  unfold ofFields at *
  by_cases hzero : exponent = 0
  · simp [hzero] at hmin
  · simp only [hzero, if_false, hpow] at hleast hmin ⊢
    simp
    omega

end Magnitude

open Float.Model (Format UnpackedFloat)
open Float.Model.UnpackedFloat

/-- The largest exponent is that of infinities and NaNs. -/
theorem exponentField_ne {x : Float} (hfinite : x.isFinite = true) :
    x.toBits.toNat / 2 ^ 52 % 2 ^ 11 ≠ 2047 := by
  intro hfield
  have hexponent : @unpackExponent Format.binary64 x.toModel.toBits.toBitVec = -1#_ := by
    apply BitVec.eq_of_toNat_eq
    simp [unpackExponent, Nat.shiftRight_eq_div_pow]
    exact hfield
  have hunpacked : x.toModel.unpack.isFinite = true := hfinite
  unfold Float.Model.unpack UnpackedFloat.unpack at hunpacked
  simp only [hexponent, if_true] at hunpacked
  split at hunpacked <;> cases hunpacked

/-- **The text of a double reads back as the double.** -/
theorem exists_toFloat_eq {x : Float} (hfinite : x.isFinite = true) (hsign : x.toBits.toNat < 2 ^ 63) :
    ∃ d : Decimal, d.IsNumber ∧ d.negative = false ∧ d.text = floatText x ∧ d.toFloat = x := by
  have hlargest := exponentField_ne hfinite
  have hfraction : x.toBits.toNat % 2 ^ 52 < 2 ^ 52 := Nat.mod_lt _ (by decide)
  have hbits : x.toBits.toNat / 2 ^ 52 % 2 ^ 11 * 2 ^ 52 + x.toBits.toNat % 2 ^ 52 = x.toBits.toNat := by
    omega
  have hpow52 : Nat.pow 2 52 = 2 ^ 52 := rfl
  have hpow11 : Nat.pow 2 11 = 2 ^ 11 := rfl
  have hpow63 : ¬ Nat.pow 2 63 ≤ x.toBits.toNat := not_le.mpr hsign
  unfold floatText
  simp only [hpow52, hpow11, hpow63, hlargest]
  generalize hexponent : x.toBits.toNat / 2 ^ 52 % 2 ^ 11 = exponent at *
  generalize x.toBits.toNat % 2 ^ 52 = fraction at *
  simp only [if_false, false_and]
  by_cases hzero : exponent = 0 ∧ fraction = 0
  · have hnumber : IsNumber ⟨false, ['0'], []⟩ :=
      ⟨List.forall_mem_singleton.mpr rfl, List.forall_mem_nil _, .inl (List.cons_ne_nil _ _)⟩
    refine ⟨⟨false, ['0'], []⟩, hnumber, rfl, ?_, ?_⟩
    · rw [if_pos hzero]
      rfl
    · apply Float.toBits_inj.mp
      apply UInt64.toNat_inj.mp
      rw [← hbits, hzero.1, hzero.2]
      decide +kernel
  · have hM := Double.isCanonical_ofFields hfraction hzero
    refine ⟨(Magnitude.ofFields exponent fraction).decimal, isNumber_ofUnits _ _, rfl, ?_, ?_⟩
    · simp [hzero, Magnitude.text_decimal]
    · apply Float.toBits_inj.mp
      apply UInt64.toNat_inj.mp
      rw [Magnitude.toFloat_decimal hM Magnitude.nearBelow_ofFields, ← hbits]
      exact Double.toNat_toBits_pack (by omega) hfraction hzero

end Decimal

end InfixFormula

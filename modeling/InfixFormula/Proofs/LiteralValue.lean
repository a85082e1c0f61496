import InfixFormula.Proofs.Phrase

/-!
# Literals have values

The value of a literal may be an infinity, if the literal is too large, but it is never NaN
(`Leaf.isNaN_value`), and so it is equal to itself as a double.

A double is its sign, exponent and mantissa, packed into 64 bits.  Packing keeps NaN apart from all
other values (`isNaN_unpack_pack`), so it is enough to follow the operations on unpacked values.
Rounding never gives NaN, and division only where zeros, infinities or NaN are divided by one another;
what literals are divided by is a power of ten, which is finite and no zero (`isProper`).
-/

namespace InfixFormula

namespace Double

open Float.Model (UnpackedFloat Format)
open Float.Model.UnpackedFloat

variable {spec : Format} {u v : UnpackedFloat} {x y : Float}

/-- Whether the value is finite and no zero. -/
def isProper : UnpackedFloat → Bool
  | .finite _ _ _ _ => true
  | _ => false

theorem isNaN_ite {p : Prop} [Decidable p] (hu : p → u.isNaN = false) (hv : ¬p → v.isNaN = false) :
    (if p then u else v).isNaN = false := by
  by_cases h : p
  · rw [if_pos h]
    exact hu h
  · rw [if_neg h]
    exact hv h

theorem isNaN_dite {p : Prop} [Decidable p] {u : p → UnpackedFloat} {v : ¬p → UnpackedFloat}
    (hu : ∀ h, (u h).isNaN = false) (hv : ∀ h, (v h).isNaN = false) :
    (if h : p then u h else v h).isNaN = false := by
  by_cases h : p
  · rw [dif_pos h]
    exact hu h
  · rw [dif_neg h]
    exact hv h

/-- Rounding gives a finite number or an infinity. -/
theorem isNaN_roundWithAccuracy (s : Sign) (m : Nat) (e : Int) (a : Accuracy) :
    (roundWithAccuracy spec s m e a).isNaN = false := by
  unfold roundWithAccuracy
  exact isNaN_dite (fun _ => rfl) (fun _ => rfl)

/-- What is brought into the format is a number. -/
theorem isNaN_normalize (m e : Int) (s : Sign) :
    (UnpackedFloat.normalize spec m e s).isNaN = false := by
  unfold UnpackedFloat.normalize
  cases compare m 0 with
  | lt => exact isNaN_roundWithAccuracy _ _ _ _
  | eq => rfl
  | gt => exact isNaN_roundWithAccuracy _ _ _ _

/-- A number divided by one that is neither zero nor infinite is a number. -/
theorem isNaN_div (hu : u.isNaN = false) (hv : isProper v = true) :
    (div spec u v).isNaN = false := by
  cases v with
  | infinity s => cases hv
  | notANumber => cases hv
  | zero s => cases hv
  | finite s m e hm =>
      cases u with
      | infinity s' => rfl
      | notANumber => cases hu
      | zero s' => rfl
      | finite s' m' e' hm' => exact isNaN_roundWithAccuracy _ _ _ _

theorem isNaN_neg (hu : u.isNaN = false) : u.neg.isNaN = false := by
  cases u with
  | infinity s => rfl
  | notANumber => cases hu
  | zero s => rfl
  | finite s m e hm => rfl

/-- Digits with a power of ten are always a number. -/
theorem isNaN_ofScientific (m : Nat) (e : Int) :
    (UnpackedFloat.ofScientific spec m e).isNaN = false := by
  unfold UnpackedFloat.ofScientific
  refine isNaN_dite (fun _ => rfl) (fun hm => ?_)
  refine isNaN_ite (fun _ => rfl) (fun _ => ?_)
  refine isNaN_ite (fun _ => rfl) (fun _ => ?_)
  refine isNaN_ite (fun _ => ?_) (fun _ => ?_)
  · exact isNaN_roundWithAccuracy _ _ _ _
  · exact isNaN_roundWithAccuracy _ _ _ _

/-- All but NaNs are equal to themselves. -/
theorem beq_self (hu : u.isNaN = false) : u.beq u = true := by
  cases u with
  | infinity s => cases s <;> rfl
  | notANumber => cases hu
  | zero s => rfl
  | finite s m e hm =>
      have hcompare : (compare e e).then (compare m m) = .eq := by simp
      cases s with
      | negative => exact congrArg (fun o : Ordering => some o.swap == some .eq) hcompare
      | positive => exact congrArg (fun o : Ordering => some o == some .eq) hcompare

/-- Only the largest exponent can mean NaN, and then only with a mantissa. -/
theorem isNaN_unpack {b : BitVec spec.numBits}
    (h : unpackExponent b = -1#_ → unpackMantissa b = 0#_) :
    (UnpackedFloat.unpack spec b).isNaN = false := by
  unfold UnpackedFloat.unpack
  refine isNaN_ite (fun hexponent => ?_) (fun _ => ?_)
  · rw [if_pos (h hexponent)]
    rfl
  · refine isNaN_ite (fun _ => ?_) (fun _ => rfl)
    exact isNaN_dite (fun _ => rfl) (fun _ => rfl)

/-- Packing makes no NaN. -/
theorem isNaN_unpack_pack (hu : u.isNaN = false) :
    (UnpackedFloat.unpack spec (UnpackedFloat.pack spec u)).isNaN = false := by
  apply isNaN_unpack
  fun_cases UnpackedFloat.pack with
  | case1 => cases hu
  | case2 s => simp [packedInfinity]
  | case3 s => simp [packedZero]
  | case4 s m e hm biased hlarge => simp [packedInfinity]
  | case5 s m e hm bits biased hlarge hnormal =>
      intro hexponent
      have htop := congrArg BitVec.toNat hexponent
      rw [unpackExponent_packComponents, BitVec.neg_one_eq_allOnes, BitVec.toNat_allOnes,
        BitVec.toNat_ofNat, Nat.mod_eq_of_lt (by omega)] at htop
      omega
  | case6 s m e hm bits biased hlarge hnormal => simp [Nat.pos_iff_ne_zero.1 spec.he]

/-- Packing makes no NaNs. -/
theorem isNaN_ofModel_pack (hu : u.isNaN = false) :
    (Float.ofModel (Float.Model.pack u)).isNaN = false :=
  isNaN_unpack_pack hu

theorem isNaN_float_div (hx : x.isNaN = false) (hy : isProper y.toModel.unpack = true) :
    (x / y).isNaN = false :=
  isNaN_ofModel_pack (isNaN_div hx hy)

theorem isNaN_float_neg (hx : x.isNaN = false) : (-x).isNaN = false :=
  isNaN_ofModel_pack (isNaN_neg hx)

/-- Powers of ten that doubles hold exactly are neither zero nor infinite. -/
theorem isProper_powerOfTen (e : Nat) (he : e < Float.exactlyRepresentablePowersOfTen.size) :
    isProper Float.exactlyRepresentablePowersOfTen[e].toModel.unpack = true := by
  revert e
  decide +kernel

theorem isProper_hundred : isProper (100.0 : Float).toModel.unpack = true := by
  decide +kernel

/-- The double nearest to a decimal fraction is not NaN. -/
theorem isNaN_float_ofScientific (m e : Nat) : (Float.ofScientific m true e).isNaN = false := by
  unfold Float.ofScientific
  split
  · apply isNaN_float_div
    · exact isNaN_ofModel_pack (isNaN_normalize _ _ _)
    · exact isProper_powerOfTen e _
  · exact isNaN_ofModel_pack (isNaN_ofScientific _ _)

/-- A double that is not NaN is equal to itself. -/
theorem beq_float_self (hx : x.isNaN = false) : (x == x) = true :=
  beq_self hx

/-- A finite double is a number. -/
theorem isNaN_of_isFinite {x : Float} (h : x.isFinite = true) : x.isNaN = false := by
  have hunpacked : x.toModel.unpack.isFinite = true := h
  show x.toModel.unpack.isNaN = false
  cases hx : x.toModel.unpack with
  | notANumber =>
      rw [hx] at hunpacked
      cases hunpacked
  | infinity s => rfl
  | finite => rfl
  | zero s => rfl

end Double

/-- No literal is read as NaN, however long it is. -/
theorem Decimal.isNaN_toFloat (d : Decimal) : d.toFloat.isNaN = false := by
  unfold Decimal.toFloat
  dsimp only
  split
  · exact Double.isNaN_float_neg (Double.isNaN_float_ofScientific _ _)
  · exact Double.isNaN_float_ofScientific _ _

/-- **No literal is NaN.** -/
theorem Leaf.isNaN_value {l : Leaf} {x : Float} (h : l.value? = some x) : x.isNaN = false := by
  cases l with
  | number d hd =>
      cases h
      exact d.isNaN_toFloat
  | percentage d hd =>
      cases h
      exact Double.isNaN_float_div d.isNaN_toFloat Double.isProper_hundred
  | name n hn => cases h

end InfixFormula

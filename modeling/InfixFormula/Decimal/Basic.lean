import InfixFormula.Text.Basic

/-!
# Decimals

A decimal is written with an optional minus sign, digits, and perhaps a point and more digits.  It
stands for the double nearest to it, the even one of two at the same distance, and for an infinity
beyond the largest double.
-/

namespace InfixFormula

/-- A decimal, split at its sign and point. -/
structure Decimal where
  /-- Whether a minus sign stands in front. -/
  negative : Bool
  /-- The digits in front of the point. -/
  whole : Text
  /-- The digits behind the point. -/
  fraction : Text
  deriving DecidableEq

namespace Decimal

/-- The number that the digits write in base ten. -/
def digitsValue (digits : Text) : Nat :=
  digits.foldl (fun n c => 10 * n + (c.toNat - '0'.toNat)) 0

/-- The double nearest to the decimal. -/
def toFloat (d : Decimal) : Float :=
  let magnitude := Float.ofScientific (digitsValue (d.whole ++ d.fraction)) true d.fraction.length
  if d.negative then -magnitude else magnitude

end Decimal

end InfixFormula

import InfixFormula.Decimal.Basic

/-!
# Numbers in documents

A number in a document is read in a fixed frame.  Its digits make up a significand of at most 64 bits;
digits that no longer fit are dropped, and those of the whole part are made up for by the exponent.  The
significand becomes the nearest double, which is then multiplied by a power of ten, or divided by one,
once.  For up to fifteen digits and small exponents that is the nearest double to the number; beyond,
its last bits may differ from it.

A number that exceeds the doubles has no value.  One that is too small is zero.
-/

namespace InfixFormula.Document

/-- The significand with as many of the digits behind it as fit, and the digits left over. -/
def absorb (significand : Nat) : Text → Nat × Text
  | [] => (significand, [])
  | c :: digits =>
      let next := 10 * significand + (c.toNat - '0'.toNat)
      if next < Nat.pow 2 64 then absorb next digits else (significand, c :: digits)

/-- The power of ten as a double. -/
def tenTo (n : Nat) : Float := Float.ofScientific 1 false n

/-- The largest exponent of a power of ten among the doubles. -/
def largestPower : Nat := 308

/-- Divides by a power of ten, in steps that are doubles themselves. -/
def scaleDown (x : Float) (n : Nat) : Float :=
  if n ≤ largestPower then x / tenTo n
  else if x == 0.0 then x
  else scaleDown (x / tenTo largestPower) (n - largestPower)
termination_by n
decreasing_by
  simp only [largestPower] at *
  omega

/-- Multiplies by a power of ten, unless that exceeds the doubles. -/
def scaleUp? (x : Float) (n : Nat) : Option Float :=
  if n ≤ largestPower then
    let product := x * tenTo n
    if product.isInf then none else some product
  else if x == 0.0 then some x
  else none

/-- The value of a number with the given digits in front of the point and behind it, times ten to the
exponent. -/
def numberValue? (negative : Bool) (whole fraction : Text) (exponent : Int) : Option Float :=
  let front := absorb 0 whole
  let all := absorb front.1 fraction
  let taken : Int := fraction.length - all.2.length
  let scale : Int := exponent + front.2.length - taken
  let significand := Float.ofNat all.1
  let magnitude :=
    if 0 ≤ scale then scaleUp? significand scale.toNat
    else some (scaleDown significand (-scale).toNat)
  magnitude.map (fun x => if negative then -x else x)

end InfixFormula.Document

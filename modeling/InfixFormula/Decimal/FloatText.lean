import InfixFormula.Decimal.Shortest
import InfixFormula.Decimal.Positional

/-!
# The text of a double

A finite double is printed with the fewest digits that read back as it, nearest to it among those, and
always positionally: there is no exponent, and no point behind a whole number.  A negative number has
a minus sign, the negative zero too.

A double's magnitude is `significand · 2 ^ exponent`.  The numbers that read back as it reach half way
to its two neighbours; the lower neighbour is half as far away where the significand is the least one
of its exponent.  The half ways themselves count where the significand is even, since reading rounds
ties to even.  `interval` puts value and bounds on one grid: quarters of the last place are whole
numbers for large exponents, and multiples of `10 ^ (-places)` for small ones.
-/

namespace InfixFormula.Decimal

/-- The magnitude `significand · 2 ^ (exponent - 1074)` of a finite double. -/
structure Magnitude where
  /-- The significand, the implicit bit included. -/
  significand : Nat
  /-- The binary exponent above the least one. -/
  exponent : Nat
  /-- Whether the next smaller double is only half as far away as the next larger one. -/
  nearBelow : Bool

/-- The magnitude with the given exponent and fraction fields of its bits. -/
def Magnitude.ofFields (exponent fraction : Nat) : Magnitude :=
  if exponent = 0 then ⟨fraction, 0, false⟩
  else ⟨Nat.pow 2 52 + fraction, exponent - 1, fraction == 0 && 1 < exponent⟩

/-- Digits behind the point that the quarters of the last place need. -/
def Magnitude.places (m : Magnitude) : Nat := 1076 - m.exponent

/-- The numbers that read back as the magnitude, in units of `10 ^ (-places)`. -/
def Magnitude.interval (m : Magnitude) : Interval :=
  let quarter := if m.exponent < 1076 then Nat.pow 5 m.places else Nat.pow 2 (m.exponent - 1076)
  { value := 4 * m.significand * quarter
    low := (4 * m.significand - if m.nearBelow then 1 else 2) * quarter
    high := (4 * m.significand + 2) * quarter
    closed := m.significand % 2 == 0 }

/-- The positional text of the shortest decimal that reads back as the magnitude. -/
def Magnitude.text (m : Magnitude) : Text :=
  positional m.interval.shortest m.places

/-- The text of a double. -/
def floatText (x : Float) : Text :=
  let bits := x.toBits.toNat
  let negative := Nat.pow 2 63 ≤ bits
  let exponent := bits / Nat.pow 2 52 % Nat.pow 2 11
  let fraction := bits % Nat.pow 2 52
  let magnitude :=
    if exponent = 2047 then "inf".toList
    else if exponent = 0 ∧ fraction = 0 then ['0']
    else (Magnitude.ofFields exponent fraction).text
  if exponent = 2047 ∧ fraction ≠ 0 then "NaN".toList
  else if negative then '-' :: magnitude
  else magnitude

end InfixFormula.Decimal

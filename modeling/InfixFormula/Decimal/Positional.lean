import InfixFormula.Text.Basic

/-!
# Positional decimal text

A decimal number is a natural number of units of `10 ^ (-places)`.  Its positional text has the whole
part in full, without leading zeros, and behind a point the fraction without trailing zeros; a whole
number has no point.
-/

namespace InfixFormula.Decimal

/-- The digits without the zeros at the end. -/
def dropTrailingZeros (digits : Text) : Text :=
  (digits.reverse.dropWhile (fun c => c == '0')).reverse

/-- The digits of `n`, with zeros in front up to `width` digits. -/
def padded (width n : Nat) : Text :=
  let digits := Text.ofNat n
  List.replicate (width - digits.length) '0' ++ digits

/-- The text of `n` units of `10 ^ (-places)`. -/
def positional (n places : Nat) : Text :=
  let whole := Text.ofNat (n / Nat.pow 10 places)
  let fraction := dropTrailingZeros (padded places (n % Nat.pow 10 places))
  if fraction.isEmpty then whole else whole ++ '.' :: fraction

end InfixFormula.Decimal

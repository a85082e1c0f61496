import InfixFormula.Text.Basic
import InfixFormula.Text.Unprinted.Table

/-!
# Characters without print

A character is printed if it leaves ink of its own.  Controls, format marks, private and unassigned
codes leave none; neither do the marks that join the character before them, nor any blank but the
space, which counts as printed since it shows as a gap of known width.
-/

namespace InfixFormula.Text

namespace Unprinted

/-- Whether the code lies in the range. -/
def CodeRange.covers (r : CodeRange) (code : Nat) : Bool :=
  r.first ≤ code && code ≤ r.last

/-- Whether one of the ranges covers the code. -/
def covered (ranges : List CodeRange) (code : Nat) : Bool := ranges.any (fun r => r.covers code)

end Unprinted

/-- Whether the character leaves no ink of its own. -/
def isUnprinted (c : Char) : Bool :=
  let code := c.toNat
  if code < 0x80 then code < 0x20 || code == 0x7F
  else
    Unprinted.covered Unprinted.inklessRanges code
      || Unprinted.covered Unprinted.joiningRanges code

end InfixFormula.Text

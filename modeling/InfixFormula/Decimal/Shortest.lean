/-!
# The shortest decimal in an interval

A binary fraction has many decimal names.  The one to print is the coarsest: of the grids of multiples
of 1, 10, 100, … the widest that still has a point in the interval of numbers that read back as the
value, and on that grid the point nearest to the value.  All quantities are natural numbers in one
common unit, so nothing is rounded on the way.

On a grid only the two neighbours of the value can be the nearest point in the interval, so
`nearestOn` looks at no others.  Main facts: what is found lies in the interval whenever the value does
(`contains_shortest`).
-/

namespace InfixFormula.Decimal

/-- A value between two bounds, all in one unit.  The bounds belong to the interval if it is
`closed`. -/
structure Interval where
  /-- The value that is to be named. -/
  value : Nat
  /-- The lower bound. -/
  low : Nat
  /-- The upper bound. -/
  high : Nat
  /-- Whether the bounds themselves count. -/
  closed : Bool

namespace Interval

/-- Whether `n` lies in the interval. -/
def contains (w : Interval) (n : Nat) : Bool :=
  if w.closed then w.low ≤ n && n ≤ w.high else w.low < n && n < w.high

/-- The multiple of `unit` in the interval that is nearest to the value.  Of two multiples at the same
distance it is the larger. -/
def nearestOn (w : Interval) (unit : Nat) : Option Nat :=
  let below := w.value / unit * unit
  let above := below + unit
  match w.contains below, w.contains above with
  | true, true => some (if w.value - below < above - w.value then below else above)
  | true, false => some below
  | false, true => some above
  | false, false => none

/-- The nearest point on the widest grid that has one, among the grids of multiples of `10 ^ k` for
`k` up to `places`. -/
def coarsest (w : Interval) : Nat → Nat
  | 0 => w.value
  | k + 1 =>
      match w.nearestOn (Nat.pow 10 (k + 1)) with
      | some n => n
      | none => w.coarsest k

/-- The shortest decimal in the interval: no grid wider than ten times the value needs a look. -/
def shortest (w : Interval) : Nat :=
  w.coarsest (Nat.toDigits 10 w.value).length

/-- A multiple of the unit that was found lies in the interval. -/
theorem contains_nearestOn {w : Interval} {unit n : Nat} (h : w.nearestOn unit = some n) :
    w.contains n = true := by
  simp only [nearestOn] at h
  split at h <;> grind

/-- Trying coarser units never leaves the interval. -/
theorem contains_coarsest {w : Interval} (hw : w.contains w.value = true) (k : Nat) :
    w.contains (w.coarsest k) = true := by
  induction k with
  | zero => exact hw
  | succ k ih =>
      rw [coarsest]
      split
      · next h => exact contains_nearestOn h
      · exact ih

/-- What is found lies in the interval. -/
theorem contains_shortest {w : Interval} (hw : w.contains w.value = true) :
    w.contains w.shortest = true :=
  contains_coarsest hw _

end Interval

end InfixFormula.Decimal

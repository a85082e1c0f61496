/-!
# The four arithmetic operators

Multiplication and division bind tighter than addition and subtraction.  Applied to doubles each is
the IEEE operation; what a zero divisor means is not decided here.

Main fact: reading a symbol inverts writing it (`ofChar?_symbol`, `symbol_of_ofChar?`).
-/

namespace InfixFormula

/-- An arithmetic operator between two operands. -/
inductive Operator where
  | add
  | subtract
  | multiply
  | divide
  deriving DecidableEq

namespace Operator

/-- The character that writes the operator. -/
def symbol : Operator → Char
  | add => '+'
  | subtract => '-'
  | multiply => '*'
  | divide => '/'

/-- The operator that a character writes. -/
def ofChar? : Char → Option Operator
  | '+' => some add
  | '-' => some subtract
  | '*' => some multiply
  | '/' => some divide
  | _ => none

/-- Whether the operator is one of the two that bind tighter. -/
def isMultiplicative : Operator → Bool
  | multiply | divide => true
  | add | subtract => false

/-- Plain arithmetic on doubles. -/
def apply : Operator → Float → Float → Float
  | add, x, y => x + y
  | subtract, x, y => x - y
  | multiply, x, y => x * y
  | divide, x, y => x / y

/-- The symbol of an operator is read as this operator. -/
@[simp] theorem ofChar?_symbol (op : Operator) : ofChar? op.symbol = some op := by
  cases op <;> rfl

/-- Each operator has one symbol only. -/
theorem symbol_of_ofChar? {c : Char} {op : Operator} (h : ofChar? c = some op) :
    op.symbol = c := by
  unfold ofChar? at h
  split at h <;> cases h <;> rfl

end Operator

end InfixFormula

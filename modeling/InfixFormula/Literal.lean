import InfixFormula.Decimal.Basic
import InfixFormula.Text.Blank

/-!
# Number and percentage literals

A number is an optional minus sign and either digits, with or without a fraction behind a point, or a
point and digits alone.  A percentage is a number that has digits in front of any point, and a
percent sign.  Digits are the ten ASCII digits.

A number stands for the double nearest to it, a percentage for the double of its number divided by a
hundred, so a percentage is rounded twice.

A *bare token* is what stands between operators and brackets without being a literal.  It is a variable
name unless it has blanks inside, is made of digits and points, or has a percent sign
(`Literal.rejection`).
-/

namespace InfixFormula

/-- Why a bare token is no variable name. -/
inductive TokenFault where
  /-- There are blanks inside, so an operator is missing between two names. -/
  | missingOperator
  /-- It is made of digits and points, but is no number. -/
  | invalidNumber
  /-- There is a percent sign, but it is no percentage. -/
  | invalidPercentage
  deriving DecidableEq

namespace Literal

/-- The characters that split a formula into operands: brackets and operators. -/
def isDelimiter (c : Char) : Bool :=
  c == '(' || c == ')' || c == '*' || c == '/' || c == '+' || c == '-'

/-- Reads a decimal without a sign. -/
def unsigned? (negative : Bool) (t : Text) : Option Decimal :=
  let whole := t.takeWhile Char.isDigit
  match t.dropWhile Char.isDigit with
  | [] => if whole.isEmpty then none else some ⟨negative, whole, []⟩
  | '.' :: fraction =>
      if fraction.isEmpty || !fraction.all Char.isDigit then none
      else some ⟨negative, whole, fraction⟩
  | _ => none

/-- Reads a number. -/
def number? (t : Text) : Option Decimal :=
  match t with
  | '-' :: u => unsigned? true u
  | _ => unsigned? false t

/-- Reads a percentage: a number, with a digit in front of any point, and a percent sign. -/
def percentage? (t : Text) : Option Decimal :=
  match t.reverse with
  | '%' :: u =>
      match number? u.reverse with
      | some d => if d.whole.isEmpty then none else some d
      | none => none
  | _ => none

/-- Whether the text is a number. -/
def isNumber (t : Text) : Bool := (number? t).isSome

/-- The value of a number. -/
def numberValue? (t : Text) : Option Float := (number? t).map Decimal.toFloat

/-- The value of a percentage, as a fraction. -/
def percentageValue? (t : Text) : Option Float :=
  (percentage? t).map (fun d => d.toFloat / 100.0)

/-- Why the text is no variable name, if it is none. -/
def rejection (t : Text) : Option TokenFault :=
  if t.any isLayout then some .missingOperator
  else if !t.isEmpty && t.all (fun c => c.isDigit || c == '.') then some .invalidNumber
  else if t.contains '%' then some .invalidPercentage
  else none

end Literal

end InfixFormula

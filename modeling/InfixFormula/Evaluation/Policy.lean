import InfixFormula.Dict

/-!
# Policies

While a tree is evaluated, two things are for the host to decide: the value of a variable that has no
entry, and the result of a division whose divisor is zero.  A policy answers from a state of its own,
which is handed from question to question, so an answer may depend on all questions before.

`Recorded` joins a policy for variables and one for divisors and remembers the questions in order.
-/

namespace InfixFormula

/-- How a host gives values to variables without an entry: none counts as zero.  The answer comes with
the host's next state. -/
abbrev MissingPolicy (σ : Type) := Text → σ → Option Float × σ

/-- How a host replaces the quotient of a dividend and a zero divisor.  The answer comes with the host's
next state. -/
abbrev DivisorPolicy (σ : Type) := Float → Float → σ → Float × σ

namespace Policy

variable {σ : Type}

/-- Takes `x / 0` for 0. -/
def zero : DivisorPolicy σ := fun _ _ s => (0.0, s)

/-- Takes `x / 0` for `x`. -/
def dividend : DivisorPolicy σ := fun x _ s => (x, s)

/-- Takes `x / 0` for no number. -/
def nan : DivisorPolicy σ := fun _ _ s => (0.0 / 0.0, s)

/-- Takes `x / 0` for the same value whatever `x` is. -/
def quotientAlways (value : Float) : DivisorPolicy σ := fun _ _ s => (value, s)

/-- Gives no value to a missing variable. -/
def nothing : MissingPolicy σ := fun _ s => (none, s)

/-- Gives every missing variable the same value. -/
def missingAlways (value : Float) : MissingPolicy σ := fun _ s => (some value, s)

/-- Gives missing variables the values of a dictionary. -/
def missingFrom (values : Dict Float) : MissingPolicy σ := fun name s => (values.find? name, s)

/-- Numbers the missing variables 1, 2, 3, … as they are asked for. -/
def countMissing : MissingPolicy Nat := fun _ n => (some (Float.ofNat (n + 1)), n + 1)

/-- Numbers the divisions by zero 1, 2, 3, … as they are asked for. -/
def countDivisors : DivisorPolicy Nat := fun _ _ n => (Float.ofNat (n + 1), n + 1)

end Policy

/-- A question to the host. -/
inductive Call where
  /-- The value of a variable without an entry. -/
  | missing (name : Text)
  /-- The result of a division by zero. -/
  | divisor (dividend divisor : Float)

/-- Two hosts as one: the first answers for variables, the second for divisions, each from its own
state.  The questions are kept, the latest first. -/
structure Recorded (σ τ : Type) where
  /-- The state of the host that answers for variables. -/
  missing : σ
  /-- The state of the host that answers for divisions. -/
  divisor : τ
  /-- The questions so far, the latest first. -/
  calls : List Call

namespace Recorded

variable {σ τ : Type}

/-- Answers for a variable and remembers the question. -/
def onMissing (policy : MissingPolicy σ) : MissingPolicy (Recorded σ τ) := fun name s =>
  let answer := policy name s.missing
  (answer.1, { s with missing := answer.2, calls := .missing name :: s.calls })

/-- Answers for a division and remembers the question. -/
def onDivisor (policy : DivisorPolicy τ) : DivisorPolicy (Recorded σ τ) := fun x y s =>
  let answer := policy x y s.divisor
  (answer.1, { s with divisor := answer.2, calls := .divisor x y :: s.calls })

end Recorded

end InfixFormula

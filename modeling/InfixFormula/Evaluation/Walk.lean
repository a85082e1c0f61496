import InfixFormula.Evaluation.Policy
import InfixFormula.Record

/-!
# The walk through a tree

A tree is evaluated from left to right: the left operand, the right one, then the operation.  Variables
are looked up; one that is present without a value counts as zero.  A variable without an entry and a
division by a zero of either sign are put to the host.  Whatever else the doubles do (infinities,
numbers that are none) is taken as it comes.

Every node is checked against the depth limit before anything else is done with it; the root is at
depth zero.  An error ends the evaluation at once.

Main facts: the walk in the three cases of a node (`value_const`, `value_var`, `value_binary`), and that
a node too deep is never looked at (`value_of_lt`).
-/

namespace InfixFormula

/-- The values of variables.  A variable may be present without a value. -/
abbrev Lookup := Text → Option (Option Float)

/-- All that an evaluation depends on beside the tree. -/
structure Setting (σ : Type) where
  /-- The deepest level that may be reached; the root is at level 0. -/
  limit : Nat
  /-- The values of variables. -/
  lookup : Lookup
  /-- The value of a variable without an entry, or an error. -/
  missing : Text → σ → Except Error Float × σ
  /-- What replaces the quotient of a dividend and a zero divisor. -/
  divisor : DivisorPolicy σ

/-- How far an evaluation has come. -/
structure Progress (σ : Type) where
  /-- The state of the host. -/
  host : σ
  /-- The records so far, the latest first. -/
  records : List Record

namespace Setting

variable {σ : Type}

/-- Asks for the value of a variable without an entry. -/
def askMissing (env : Setting σ) (name : Text) (p : Progress σ) :
    Except Error Float × Progress σ :=
  let answer := env.missing name p.host
  (answer.1, ⟨answer.2, .missingVariable name :: p.records⟩)

/-- Asks for the result of a division by zero. -/
def askDivisor (env : Setting σ) (division : Tree) (x y : Float) (p : Progress σ) :
    Except Error Float × Progress σ :=
  let answer := env.divisor x y p.host
  (.ok answer.1, ⟨answer.2, .zeroDivisor division :: p.records⟩)

/-- Whether the operation asks the host for its result. -/
def isZeroDivision (op : Operator) (divisor : Float) : Bool := op == .divide && divisor == 0.0

/-- The value of a tree whose root is at level `depth`. -/
def value (env : Setting σ) (depth : Nat) : Tree → Progress σ → Except Error Float × Progress σ
  | .const x _, p =>
      if env.limit < depth then (.error (.tooDeep env.limit .evaluation), p) else (.ok x, p)
  | .var name, p =>
      if env.limit < depth then (.error (.tooDeep env.limit .evaluation), p)
      else
        match env.lookup name with
        | some x => (.ok (x.getD 0.0), p)
        | none => env.askMissing name p
  | .binary op left right source, p =>
      if env.limit < depth then (.error (.tooDeep env.limit .evaluation), p)
      else
        match env.value (depth + 1) left p with
        | (.error e, p) => (.error e, p)
        | (.ok x, p) =>
            match env.value (depth + 1) right p with
            | (.error e, p) => (.error e, p)
            | (.ok y, p) =>
                if isZeroDivision op y then env.askDivisor (.binary op left right source) x y p
                else (.ok (op.apply x y), p)

/-- A node too deep is never looked at. -/
theorem value_of_lt {env : Setting σ} {depth : Nat} (t : Tree) (p : Progress σ)
    (h : env.limit < depth) : env.value depth t p = (.error (.tooDeep env.limit .evaluation), p) := by
  cases t <;> simp [value, h]

/-- A constant asks nobody. -/
theorem value_const {env : Setting σ} {depth : Nat} (x : Float) (s : Source) (p : Progress σ)
    (h : depth ≤ env.limit) : env.value depth (.const x s) p = (.ok x, p) := by
  simp [value, Nat.not_lt.mpr h]

/-- A variable is looked up, and counts as zero if it is there without a value.  Only a missing one is
asked for. -/
theorem value_var {env : Setting σ} {depth : Nat} (name : Text) (p : Progress σ)
    (h : depth ≤ env.limit) :
    env.value depth (.var name) p =
      match env.lookup name with
      | some x => (.ok (x.getD 0.0), p)
      | none => env.askMissing name p := by
  rw [value, if_neg (Nat.not_lt.mpr h)]

/-- The left operand is evaluated before the right one, and an error of either ends the evaluation.  Only
the quotient by zero is asked for. -/
theorem value_binary {env : Setting σ} {depth : Nat} (op : Operator) (l r : Tree) (s : Source)
    (p : Progress σ) (h : depth ≤ env.limit) :
    env.value depth (.binary op l r s) p =
      match env.value (depth + 1) l p with
      | (.error e, p) => (.error e, p)
      | (.ok x, p) =>
          match env.value (depth + 1) r p with
          | (.error e, p) => (.error e, p)
          | (.ok y, p) =>
              if isZeroDivision op y then env.askDivisor (.binary op l r s) x y p
              else (.ok (op.apply x y), p) := by
  rw [value, if_neg (Nat.not_lt.mpr h)]

end Setting

/-- Induction on a tree whose root is at a level.  What lies below the limit is not opened. -/
@[elab_as_elim]
theorem Tree.induction_on_level (limit : Nat) {motive : Nat → Tree → Prop}
    (deep : ∀ level t, limit < level → motive level t)
    (const : ∀ level x s, level ≤ limit → motive level (.const x s))
    (var : ∀ level name, level ≤ limit → motive level (.var name))
    (binary : ∀ level op l r s, level ≤ limit → motive (level + 1) l → motive (level + 1) r →
      motive level (.binary op l r s))
    (level : Nat) (t : Tree) : motive level t := by
  have hopen : ∀ level t, (level ≤ limit → motive level t) → motive level t := by
    intro level t h
    rcases Nat.lt_or_ge limit level with hlt | hle
    · exact deep level t hlt
    · exact h hle
  induction t generalizing level with
  | const x s => exact hopen _ _ (const level x s)
  | var name => exact hopen _ _ (var level name)
  | binary op l r s ihl ihr =>
      exact hopen _ _ (fun hle => binary level op l r s hle (ihl (level + 1)) (ihr (level + 1)))

/-- The outcome of an evaluation. -/
structure Evaluation (σ : Type) where
  /-- The value, or what went wrong. -/
  result : Except Error Float
  /-- The state in which the host was left. -/
  host : σ
  /-- The records in order. -/
  records : List Record

/-- Runs an evaluation from the root. -/
def Setting.evaluate {σ : Type} (env : Setting σ) (tree : Tree) (host : σ) : Evaluation σ :=
  let outcome := env.value 0 tree ⟨host, []⟩
  ⟨outcome.1, outcome.2.host, outcome.2.records.reverse⟩

end InfixFormula

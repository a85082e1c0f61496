import InfixFormula.Error
import InfixFormula.Tree.Printer

/-!
# Records

Reading and evaluating leave records of what a host may want to see in its log: each substituted name,
a text that could not be read, a variable without an entry, a division by zero.
-/

namespace InfixFormula

/-- How much a record matters. -/
inductive Level where
  | trace
  | debug
  deriving DecidableEq

/-- The level by its name. -/
def Level.name : Level → String
  | trace => "trace"
  | debug => "debug"

/-- Something that happened during reading or evaluating. -/
inductive Record where
  /-- The name was replaced by the placeholder. -/
  | substituted (name placeholder : Text)
  /-- The text could not be read. -/
  | unreadable (text : Text) (error : Error)
  /-- The variable has no entry. -/
  | missingVariable (name : Text)
  /-- The right operand of the division is zero. -/
  | zeroDivisor (division : Tree)

namespace Record

/-- How much the record matters. -/
def level : Record → Level
  | substituted _ _ => .trace
  | _ => .debug

/-- The record in words. -/
def message : Record → String
  | substituted name placeholder =>
      "Substituted variable " ++ quotedInMessage name ++ " with " ++ quotedInMessage placeholder
  | unreadable text error =>
      "Failed to parse formula " ++ quotedInMessage text ++ ": " ++ error.message
  | missingVariable name =>
      "Variable " ++ quotedInMessage name ++ " not in mapping, using fallback"
  | zeroDivisor division =>
      "Division by zero in " ++ String.ofList division.print ++ ", applying policy"

end Record

/-- The records of reading a text as it is. -/
def Record.ofReading {α : Type} (text : Text) : Except Error α → List Record
  | .ok _ => []
  | .error e => [.unreadable text e]

end InfixFormula

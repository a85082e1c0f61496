import InfixFormula.Literal
import InfixFormula.Operator

/-!
# What can go wrong

A text can be malformed at a position, reading or evaluating can go deeper than its limit, a variable
can be missing, and an expression can be invalid.  Errors are causes; their wording is in `message`.
-/

namespace InfixFormula

/-- The activity that a depth limit guards. -/
inductive Phase where
  | parsing
  | evaluation
  deriving DecidableEq

/-- What is wrong with a malformed text. -/
inductive Fault where
  /-- A text or a bracket pair holds nothing but layout. -/
  | emptyExpression
  /-- An opening bracket has no partner. -/
  | unmatchedOpening
  /-- A closing bracket has no partner. -/
  | unmatchedClosing
  /-- An operator stands where an operand should. -/
  | missingLeftOperand (op : Operator)
  /-- Nothing follows an operator. -/
  | missingRightOperand (op : Operator)
  /-- An operator directly follows another one. -/
  | unexpectedOperator (op previous : Operator)
  /-- Two operands stand side by side. -/
  | missingOperator
  /-- A token is neither a literal nor a name. -/
  | badToken (fault : TokenFault) (token : Text)
  /-- Any other fault, in words. -/
  | described (text : Text)
  deriving DecidableEq

/-- Why an expression cannot be used. -/
inductive Defect where
  /-- The character writes no operator. -/
  | unknownOperator (c : Char)
  /-- Any other defect, in words. -/
  | described (text : Text)
  deriving DecidableEq

/-- An error of reading or evaluating. -/
inductive Error where
  /-- The text has a fault at the position. -/
  | malformed (position : Nat) (fault : Fault)
  /-- The nesting exceeds the limit. -/
  | tooDeep (limit : Nat) (phase : Phase)
  /-- The variable has no entry, and no other value is on offer. -/
  | missingVariable (name : Text)
  /-- The expression cannot be used. -/
  | invalid (defect : Defect)
  deriving DecidableEq

/-- The activity in words. -/
def Phase.message : Phase → String
  | parsing => "parsing"
  | evaluation => "evaluation"

/-- The rejection of a token in words. -/
def TokenFault.message : TokenFault → String
  | missingOperator => "missing operator"
  | invalidNumber => "invalid number"
  | invalidPercentage => "invalid percentage"

/-- A text or symbol between single quotes. -/
def quotedInMessage (t : Text) : String := "'" ++ String.ofList t ++ "'"

/-- The fault in words. -/
def Fault.message : Fault → String
  | emptyExpression => "empty expression"
  | unmatchedOpening => "unmatched '('"
  | unmatchedClosing => "unmatched ')'"
  | missingLeftOperand op =>
      "operator " ++ quotedInMessage [op.symbol] ++ " is missing its left operand"
  | missingRightOperand op =>
      "operator " ++ quotedInMessage [op.symbol] ++ " is missing its right operand"
  | unexpectedOperator op previous =>
      "unexpected operator " ++ quotedInMessage [op.symbol] ++ " after "
        ++ quotedInMessage [previous.symbol]
  | missingOperator => "missing operator"
  | badToken fault token => fault.message ++ " in " ++ quotedInMessage token
  | described text => String.ofList text

/-- The defect in words. -/
def Defect.message : Defect → String
  | unknownOperator c => "unknown operator " ++ quotedInMessage [c]
  | described text => String.ofList text

namespace Error

/-- The error in words. -/
def message : Error → String
  | malformed position fault =>
      "Malformed expression at position " ++ toString position ++ ": " ++ fault.message
  | tooDeep limit phase =>
      "Recursion limit of " ++ toString limit ++ " exceeded during " ++ phase.message
  | missingVariable name => "Missing variable: " ++ String.ofList name
  | invalid defect => "Invalid expression: " ++ defect.message

/-- Where the text is malformed. -/
def position? : Error → Option Nat
  | malformed position _ => some position
  | _ => none

/-- Whether the error is a fault of the text. -/
def isMalformed : Error → Bool
  | malformed _ _ => true
  | _ => false

/-- Whether the error is about nesting. -/
def isTooDeep : Error → Bool
  | tooDeep _ _ => true
  | _ => false

/-- Whether the error is about a missing variable. -/
def isMissingVariable : Error → Bool
  | missingVariable _ => true
  | _ => false

end Error

/-- Reads the operator that a character writes. -/
def Operator.read (c : Char) : Except Error Operator :=
  match Operator.ofChar? c with
  | some op => .ok op
  | none => .error (.invalid (.unknownOperator c))

end InfixFormula

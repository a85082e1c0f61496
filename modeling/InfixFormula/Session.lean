import InfixFormula.Evaluation
import InfixFormula.Substitution

/-!
# Sessions

A session keeps variables, formulas in named slots, and the depth limit for reading.  Formulas are read
into slots, as they are or with the names of the variables, and are evaluated over the variables of the
moment.  A reading that fails leaves slots and variables as they were.

Main facts: what is read is found in its slot (`slot?_store`), and a failed reading changes nothing
(`parse_of_error`, `parseWith_of_error`).
-/

namespace InfixFormula

/-- The state of a session. -/
structure Session where
  /-- The variables, some of them without a value. -/
  vars : Dict (Option Float)
  /-- The formulas by slot. -/
  slots : Dict Formula
  /-- The depth limit for reading. -/
  limit : Nat

namespace Session

/-- A session without variables and formulas. -/
def start : Session := ⟨Dict.empty, Dict.empty, defaultLimit⟩

/-- Puts values under names. -/
def set (s : Session) (entries : List (Text × Option Float)) : Session :=
  { s with vars := s.vars.insertAll entries }

/-- Removes a variable. -/
def unset (s : Session) (name : Text) : Session :=
  { s with vars := s.vars.erase name }

/-- Sets the depth limit for later readings. -/
def setLimit (s : Session) (limit : Nat) : Session := { s with limit := limit }

/-- The formula in the slot. -/
def slot? (s : Session) (slot : Text) : Option Formula := s.slots.find? slot

/-- Puts a formula into the slot. -/
def store (s : Session) (slot : Text) (f : Formula) : Session :=
  { s with slots := s.slots.insert slot f }

/-- Reads a text into the slot as it is. -/
def parse (s : Session) (slot text : Text) : Except Error Formula × Session :=
  match Formula.parse s.limit text with
  | .ok f => (.ok f, s.store slot f)
  | .error e => (.error e, s)

/-- Reads a text with the names of the variables into the slot. -/
def parseWith (s : Session) (slot text : Text) : Except Error Formula × Session :=
  match (Formula.readOver s.limit text).run.run s.vars with
  | (.ok f, vars) => (.ok f, { s with vars := vars }.store slot f)
  | (.error e, vars) => (.error e, { s with vars := vars })

/-- The formula that was put into a slot is found there, and all other slots are as they were. -/
theorem slot?_store (s : Session) (slot other : Text) (f : Formula) :
    (s.store slot f).slot? other = if other = slot then some f else s.slot? other :=
  Dict.find?_insert s.slots slot other f

/-- A text that cannot be read leaves the whole session as it was. -/
theorem parse_of_error {s : Session} {slot text : Text} {e : Error}
    (h : Formula.parse s.limit text = .error e) : s.parse slot text = (.error e, s) := by
  simp [parse, h]

/-- A failed reading with known names leaves the whole session as it was, its variables included. -/
theorem parseWith_of_error {s : Session} {slot text : Text} {e : Error}
    (h : Formula.parseWith s.limit s.vars text = .error e) :
    s.parseWith slot text = (.error e, s) := by
  have hrun : (Formula.readOver s.limit text).run.run s.vars = (.error e, s.vars) := by
    rw [Formula.run_readOver, h]
  rw [parseWith, hrun]

end Session

end InfixFormula

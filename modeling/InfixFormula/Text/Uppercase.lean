import InfixFormula.Text.Basic
import InfixFormula.Text.Uppercase.Table

/-!
# Capital letters

Writing a text in capitals replaces each character by its capital form, whatever stands around it.
For most letters that is one letter; some become several, as the sharp s becomes `SS`.  Characters
without capitals stay.

Main facts: the capitals of a concatenation are the concatenation of the capitals
(`uppercase_append`), and an ASCII character has the one capital that its letter has
(`capitals_of_lt`).
-/

namespace InfixFormula.Text

namespace Uppercase

/-- Whether a letter with this code belongs to the run. -/
def CapitalRun.covers (r : CapitalRun) (code : Nat) : Bool :=
  r.first ≤ code && code ≤ r.last && (code - r.first) % r.step == 0

/-- The capital form of a character beyond ASCII. -/
def capitalsBeyondAscii (c : Char) : Text :=
  let code := c.toNat
  match capitalSequences.lookup code with
  | some codes => codes.map Char.ofNat
  | none =>
      match capitalRuns.find? (fun r => r.covers code) with
      | some r => [Char.ofNat (r.capital + (code - r.first))]
      | none => [c]

end Uppercase

/-- The capital form of a character. -/
def capitals (c : Char) : Text :=
  if c.toNat < 128 then [c.toUpper] else Uppercase.capitalsBeyondAscii c

/-- The text in capitals. -/
def uppercase (t : Text) : Text := t.flatMap capitals

/-- An ASCII character has a single capital, its own. -/
theorem capitals_of_lt {c : Char} (h : c.toNat < 128) : capitals c = [c.toUpper] := by
  simp [capitals, h]

@[simp] theorem uppercase_nil : uppercase [] = [] := rfl

/-- Each character is written in capitals whatever stands around it. -/
@[simp] theorem uppercase_cons (c : Char) (t : Text) :
    uppercase (c :: t) = capitals c ++ uppercase t := rfl

/-- Parts of a text are written in capitals one by one. -/
@[simp] theorem uppercase_append (t u : Text) :
    uppercase (t ++ u) = uppercase t ++ uppercase u := by
  simp [uppercase]

end InfixFormula.Text

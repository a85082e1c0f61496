import InfixFormula.Formula
import InfixFormula.Record
import InfixFormula.Text.Replace
import InfixFormula.Text.Uppercase

/-!
# Substituting known names

Names of variables may hold operators, brackets and blanks, which a formula text cannot.  Before
reading, every known name is replaced in the text by a placeholder `v1`, `v2`, …, and the values of the
names are put under the placeholders.

Names are found without regard to case, by writing text and names in capitals, and as mere stretches of
text, without word boundaries.  The longest name is replaced first, so that no name is torn by a
shorter one inside it; names of one length follow the order of their characters.  Blank names and names
that are numbers are left alone.  Placeholders start with a small letter, so a later name does not match
inside one by its letter.

Reading with known names gives the formula and the variables with the placeholders (`parseWith`).  The
same reading as a program that holds the variables (`readOver`) writes them only when it has succeeded
(`run_readOver`).
-/

namespace InfixFormula

/-- A name that is replaced, with its placeholder and its value. -/
structure Binding (α : Type) where
  /-- The name. -/
  name : Text
  /-- What stands for it in the text. -/
  placeholder : Text
  /-- The value of the name. -/
  value : α

namespace Substitution

variable {α : Type}

/-- The placeholder of the name at place `index`, counted from zero. -/
def placeholder (index : Nat) : Text := 'v' :: Text.ofNat (index + 1)

/-- Whether the name is replaced at all. -/
def isReplaced (name : Text) : Bool := !name.isBlank && !Literal.isNumber name

/-- Whether the first name is replaced before the second: the longer one, and of two of one length the
one whose characters come first. -/
def precedes (m n : Text) : Bool :=
  n.length < m.length || (m.length == n.length && !n.lex m)

/-- The names that are replaced, in the order of their replacement, with their values. -/
def ordered (vars : Dict α) : List (Text × α) :=
  (vars.entries.filter (fun e => isReplaced e.1)).mergeSort (fun e e' => precedes e.1 e'.1)

/-- The bindings of all names that are replaced. -/
def bindings (vars : Dict α) : List (Binding α) :=
  (ordered vars).zipIdx.map (fun e => ⟨e.1.1, placeholder e.2, e.1.2⟩)

/-- The text in capitals with placeholders in place of the names. -/
def substitute (bs : List (Binding α)) (text : Text) : Text :=
  bs.foldl (fun t b => Text.replaceAll b.name.uppercase b.placeholder t) text.uppercase

/-- The placeholders by name. -/
def mapping (bs : List (Binding α)) : Dict Text :=
  Dict.ofList (bs.map (fun b => (b.name, b.placeholder)))

/-- The variables with the values of the names under the placeholders. -/
def extend (bs : List (Binding α)) (vars : Dict α) : Dict α :=
  vars.insertAll (bs.map (fun b => (b.placeholder, b.value)))

end Substitution

/-- Reads a text in which the names of `vars` may stand as they are.  Gives the formula and the
variables with the values of its placeholders.  Without variables nothing is replaced, and the text
keeps its case. -/
def Formula.parseWith {α : Type} (limit : Nat) (vars : Dict α) (text : Text) :
    Except Error (Formula × Dict α) :=
  if vars.entries.isEmpty then
    match Formula.parse limit text with
    | .ok f => .ok (f, vars)
    | .error e => .error e
  else
    let bs := Substitution.bindings vars
    match Tree.parse limit (Substitution.substitute bs text) with
    | .ok tree => .ok (⟨tree, text, Substitution.mapping bs⟩, Substitution.extend bs vars)
    | .error e => .error e

/-- Reads a text in which the names of the variables may stand, as a program over the variables: it
looks at them, reads, and only then writes the values of the names under their placeholders. -/
def Formula.readOver {α : Type} (limit : Nat) (text : Text) :
    ExceptT Error (StateM (Dict α)) Formula := do
  let vars ← get
  if vars.entries.isEmpty then
    ExceptT.mk (pure (Formula.parse limit text))
  else
    let bs := Substitution.bindings vars
    let tree ← ExceptT.mk (pure (Tree.parse limit (Substitution.substitute bs text)))
    modify (Substitution.extend bs)
    return ⟨tree, text, Substitution.mapping bs⟩

/-- Over no variables the program reads the text as it stands and writes nothing. -/
theorem Formula.run_readOver_of_isEmpty {α : Type} {vars : Dict α}
    (hvars : vars.entries.isEmpty = true) (limit : Nat) (text : Text) :
    (Formula.readOver limit text).run.run vars = (Formula.parse limit text, vars) := by
  show StateT.run (ExceptT.run (if vars.entries.isEmpty then _ else _)) vars = _
  rw [if_pos hvars]
  rfl

/-- The outcome is that of `Formula.parseWith`, and the variables are those that it gives, or the old
ones. -/
theorem Formula.run_readOver {α : Type} (limit : Nat) (text : Text) (vars : Dict α) :
    (Formula.readOver limit text).run.run vars =
      match Formula.parseWith limit vars text with
      | .ok (f, next) => (.ok f, next)
      | .error e => (.error e, vars) := by
  by_cases hvars : vars.entries.isEmpty = true
  · rw [run_readOver_of_isEmpty hvars, Formula.parseWith, if_pos hvars]
    cases Formula.parse limit text <;> rfl
  · show StateT.run (ExceptT.run (if vars.entries.isEmpty then _ else _)) vars = _
    rw [if_neg hvars, Formula.parseWith, if_neg hvars]
    dsimp only
    cases Tree.parse limit (Substitution.substitute (Substitution.bindings vars) text) <;> rfl

/-- The records of reading a text with known names. -/
def Formula.parseWithRecords {α : Type} (limit : Nat) (vars : Dict α) (text : Text) : List Record :=
  if vars.entries.isEmpty then Record.ofReading text (Tree.parse limit text)
  else
    let bs := Substitution.bindings vars
    let substituted := Substitution.substitute bs text
    bs.map (fun b => .substituted b.name b.placeholder)
      ++ Record.ofReading substituted (Tree.parse limit substituted)

end InfixFormula

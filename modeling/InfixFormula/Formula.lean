import InfixFormula.Dict
import InfixFormula.Scan

/-!
# Formulas

A formula is a tree, the text it was given as, and the placeholders that stand in the tree for names of
the text.  Reading a text as it is gives a formula without placeholders.

Two formulas are the same if their trees are, their texts are equal and they have the same
placeholders for the same names.
-/

namespace InfixFormula

/-- A formula. -/
structure Formula where
  /-- The tree. -/
  tree : Tree
  /-- The text as it was given. -/
  text : Text
  /-- The placeholders by the names that they stand for. -/
  mapping : Dict Text

/-- The limit of nesting, for reading and for evaluating, where no other is set. -/
def defaultLimit : Nat := 1000

/-- Reads a text as a tree.  Full-width brackets count as brackets; the sources of the tree lie in the
text with ASCII brackets. -/
def Tree.parse (limit : Nat) (text : Text) : Except Error Tree :=
  Reader.tree ⟨limit, Bracket.ascii text⟩

namespace Formula

/-- Reads a text as a formula. -/
def parse (limit : Nat) (text : Text) : Except Error Formula :=
  match Tree.parse limit text with
  | .ok tree => .ok ⟨tree, text, Dict.empty⟩
  | .error e => .error e

/-- The placeholder that stands for the name. -/
def placeholder? (f : Formula) (name : Text) : Option Text := f.mapping.find? name

/-- Whether the two formulas agree in tree, text and placeholders. -/
def same (f g : Formula) : Bool :=
  f.tree.same g.tree && f.text == g.text && f.mapping.agrees g.mapping

/-- Whether two readings had the same outcome: the same formula or the same error. -/
def sameOutcome : Except Error Formula → Except Error Formula → Bool
  | .ok f, .ok g => f.same g
  | .error e, .error e' => e == e'
  | _, _ => false

/-- A formula that was read is the tree of its text, and knows no placeholders. -/
theorem parse_eq_ok_iff {limit : Nat} {text : Text} {f : Formula} :
    parse limit text = .ok f ↔
      Tree.parse limit text = .ok f.tree ∧ f.text = text ∧ f.mapping = Dict.empty := by
  unfold parse
  split
  · next tree h =>
      obtain ⟨t, x, m⟩ := f
      simp only [Except.ok.injEq, Formula.mk.injEq]
      grind
  · next e h => simp [h]

/-- Where the text has a tree, the formula is read. -/
theorem parse_of_tree {limit : Nat} {text : Text} {tree : Tree}
    (h : Tree.parse limit text = .ok tree) : parse limit text = .ok ⟨tree, text, Dict.empty⟩ :=
  parse_eq_ok_iff.mpr ⟨h, rfl, rfl⟩

/-- Formulas and trees fail on the same texts, with the same errors. -/
theorem parse_eq_error_iff {limit : Nat} {text : Text} {e : Error} :
    parse limit text = .error e ↔ Tree.parse limit text = .error e := by
  unfold parse
  split
  · next tree h => simp [h]
  · next e' h => simp [h]

end Formula

end InfixFormula

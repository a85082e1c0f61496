import InfixFormula.Operator
import InfixFormula.Source

/-!
# Formula trees

A formula is a tree of binary operations over constants and variables.  Constants and operations
remember the text they were read from; a variable is its own text.  Sources are for display and never
touch the value of a tree.

Two trees are the same (`Tree.same`) if they have the same shape, operators and names, sources that
show the same text, and constants that are equal as doubles.  A tree with a constant that is not a
number is therefore not the same as itself, while 0 and -0 are told apart only by their sources.
-/

namespace InfixFormula

/-- A formula tree. -/
inductive Tree where
  /-- A number or percentage with its value. -/
  | const (value : Float) (source : Source)
  /-- A name to be looked up. -/
  | var (name : Text)
  /-- An operation on two operands. -/
  | binary (op : Operator) (left right : Tree) (source : Source)

namespace Tree

/-- The text that the node was read from. -/
def sourceText : Tree → Text
  | const _ source => source.text
  | var name => name
  | binary _ _ _ source => source.text

/-- The whole text that the root was cut from.  A variable remembers none. -/
def buffer? : Tree → Option Text
  | const _ source => some source.buffer
  | var _ => none
  | binary _ _ _ source => some source.buffer

/-- The number of levels.  A leaf has one. -/
def depth : Tree → Nat
  | const _ _ => 1
  | var _ => 1
  | binary _ left right _ => 1 + max left.depth right.depth

/-- The number of nodes, leaves included. -/
def size : Tree → Nat
  | const _ _ => 1
  | var _ => 1
  | binary _ left right _ => left.size + right.size + 1

/-- The names in front of `rest`, from left to right, with repetitions. -/
def namesOnto : Tree → List Text → List Text
  | const _ _, rest => rest
  | var name, rest => name :: rest
  | binary _ left right _, rest => left.namesOnto (right.namesOnto rest)

/-- The names in the tree from left to right, with repetitions. -/
def names (t : Tree) : List Text := t.namesOnto []

/-- The distinct names in the order of their first appearance. -/
def distinctNames (t : Tree) : List Text := t.names.eraseDups

/-- Whether the two trees agree in shape, operators, names, values and source texts. -/
def same : Tree → Tree → Bool
  | const x s, const y t => x == y && s.same t
  | var m, var n => m == n
  | binary op l r s, binary op' l' r' t => op == op' && l.same l' && r.same r' && s.same t
  | _, _ => false

/-- Every tree has a level. -/
theorem depth_pos (t : Tree) : 0 < t.depth := by
  cases t <;> simp only [depth] <;> omega

/-- Listing names in front of others leaves those where they are. -/
theorem namesOnto_eq (t : Tree) (rest : List Text) : t.namesOnto rest = t.names ++ rest := by
  induction t generalizing rest with
  | const => rfl
  | var => rfl
  | binary op l r s ihl ihr =>
      rw [names, namesOnto, namesOnto, ihl, ihr, ihl, ihr []]
      simp

@[simp] theorem names_const (x : Float) (s : Source) : (const x s).names = [] := rfl

@[simp] theorem names_var (n : Text) : (var n).names = [n] := rfl

/-- The names of the left operand come first. -/
@[simp] theorem names_binary (op : Operator) (l r : Tree) (s : Source) :
    (binary op l r s).names = l.names ++ r.names := by
  rw [names, namesOnto, namesOnto_eq, namesOnto_eq, List.append_nil]

end Tree

end InfixFormula

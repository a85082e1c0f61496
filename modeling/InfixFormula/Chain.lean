import InfixFormula.Error
import InfixFormula.Tree.Basic

/-!
# Chains of operands

What stands at one bracket level is a chain: operands with operators between them.  A list of items is
a chain if it alternates and both ends are operands; the first item that breaks the alternation is the
fault.

A chain becomes a tree in two passes.  The first joins the factors of each product, so that a chain of
terms with additive operators between them is left; the second joins the terms.  Both join from the
left, so neighbours of the same strength group to the left.  A join spans from the start of its left
operand to the stop of its right one.

The first pass is `products`, the second `sum`.
-/

namespace InfixFormula

/-- A tree with the span of the text that it stands for, brackets around it included. -/
structure Operand where
  /-- The tree. -/
  tree : Tree
  /-- The span. -/
  span : Span

/-- What a reading of one bracket level finds. -/
inductive Item where
  /-- A leaf or a bracket pair. -/
  | operand (o : Operand)
  /-- An operator and its position. -/
  | operator (op : Operator) (position : Nat)

/-- A first operand, and further operands each behind its operator. -/
structure Chain where
  /-- The operand at the left end. -/
  first : Operand
  /-- The other operands. -/
  links : List (Operator × Operand)

namespace Chain

/-- Reads the items behind an operand. -/
def linksOf : List Item → Except Error (List (Operator × Operand))
  | [] => .ok []
  | .operand o :: _ => .error (.malformed o.span.start .missingOperator)
  | [.operator op position] => .error (.malformed position (.missingRightOperand op))
  | .operator op _ :: .operator next position :: _ =>
      .error (.malformed position (.unexpectedOperator next op))
  | .operator op _ :: .operand o :: items =>
      match linksOf items with
      | .ok links => .ok ((op, o) :: links)
      | .error e => .error e

/-- Reads the items of a bracket level whose contents start at `start`. -/
def ofItems (start : Nat) : List Item → Except Error Chain
  | [] => .error (.malformed start .emptyExpression)
  | .operator op position :: _ => .error (.malformed position (.missingLeftOperand op))
  | .operand o :: items =>
      match linksOf items with
      | .ok links => .ok ⟨o, links⟩
      | .error e => .error e

/-- The operation on two neighbours. -/
def operation (buffer : Text) (op : Operator) (left right : Operand) : Operand :=
  let span : Span := ⟨left.span.start, right.span.stop⟩
  ⟨.binary op left.tree right.tree ⟨buffer, span⟩, span⟩

/-- Joins the factors of every product; `running` is the product that is being joined. -/
def products (buffer : Text) (running : Operand) : List (Operator × Operand) → Chain
  | [] => ⟨running, []⟩
  | (op, o) :: links =>
      if op.isMultiplicative then products buffer (operation buffer op running o) links
      else
        let later := products buffer o links
        ⟨running, (op, later.first) :: later.links⟩

/-- Joins the operands from the left. -/
def sum (buffer : Text) (c : Chain) : Operand :=
  c.links.foldl (fun left link => operation buffer link.1 left link.2) c.first

/-- The tree of the chain: products first, then their sum. -/
def tree (buffer : Text) (c : Chain) : Tree :=
  ((products buffer c.first c.links).sum buffer).tree

end Chain

/-- The tree of the items of a bracket level whose contents start at `start`. -/
def Chain.treeOf (buffer : Text) (start : Nat) (items : List Item) : Except Error Tree :=
  match Chain.ofItems start items with
  | .ok c => .ok (c.tree buffer)
  | .error e => .error e

end InfixFormula

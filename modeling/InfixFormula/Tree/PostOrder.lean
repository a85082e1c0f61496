import InfixFormula.Tree.Basic

/-!
# Trees as lists of nodes

A tree is listed in post-order: the nodes of the left operand, those of the right one, then the
operation.  Reading such a list back keeps a stack of finished trees, on which an operation takes the
two topmost.

Main fact: reading inverts listing (`ofPostOrder?_postOrder`).
-/

namespace InfixFormula

/-- A node without its operands. -/
inductive Node where
  /-- A constant. -/
  | const (value : Float) (source : Source)
  /-- A variable. -/
  | var (name : Text)
  /-- An operation on the two trees before it. -/
  | binary (op : Operator) (source : Source)

namespace Tree

/-- The nodes of the tree in post-order, in front of `rest`. -/
def postOrderOnto : Tree → List Node → List Node
  | const x s, rest => .const x s :: rest
  | var name, rest => .var name :: rest
  | binary op l r s, rest => l.postOrderOnto (r.postOrderOnto (.binary op s :: rest))

/-- The nodes of the tree in post-order. -/
def postOrder (t : Tree) : List Node := t.postOrderOnto []

/-- What the stack of finished trees is after one more node.  There is none if an operation lacks
operands. -/
def push (stack : List Tree) : Node → Option (List Tree)
  | .const x s => some (const x s :: stack)
  | .var name => some (var name :: stack)
  | .binary op s =>
      match stack with
      | r :: l :: below => some (binary op l r s :: below)
      | _ => none

/-- The stack of finished trees after all the nodes. -/
def pushAll (stack : List Tree) : List Node → Option (List Tree)
  | [] => some stack
  | n :: nodes =>
      match push stack n with
      | some stack' => pushAll stack' nodes
      | none => none

/-- The tree that the nodes list, if they list one. -/
def ofPostOrder? (nodes : List Node) : Option Tree :=
  match pushAll [] nodes with
  | some [t] => some t
  | _ => none

/-- The listing of a tree leaves the tree on top of the stack, and touches nothing below. -/
theorem pushAll_postOrderOnto (t : Tree) (stack : List Tree) (rest : List Node) :
    pushAll stack (t.postOrderOnto rest) = pushAll (t :: stack) rest := by
  induction t generalizing stack rest with
  | const => rfl
  | var => rfl
  | binary op l r s ihl ihr =>
      rw [postOrderOnto, ihl, ihr]
      rfl

/-- Reading a listing gives the tree back. -/
theorem ofPostOrder?_postOrder (t : Tree) : ofPostOrder? t.postOrder = some t := by
  simp [ofPostOrder?, postOrder, pushAll_postOrderOnto, pushAll]

end Tree

end InfixFormula

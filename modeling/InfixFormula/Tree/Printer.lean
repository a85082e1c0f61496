import InfixFormula.Decimal.FloatText
import InfixFormula.Tree.Basic

/-!
# Printed trees

A tree is printed with brackets around every operation and single spaces around every operator, so the
print shows how the operators were grouped.  Constants are printed by their value, not by the text they
were read from.

`printOnto` writes in front of what has been written already, in one pass over the tree;
`printOnto_eq` says that it is the print and the rest.
-/

namespace InfixFormula.Tree

/-- The print of the tree in front of `rest`. -/
def printOnto : Tree → Text → Text
  | const x _, rest => Decimal.floatText x ++ rest
  | var name, rest => name ++ rest
  | binary op l r _, rest =>
      '(' :: l.printOnto (' ' :: op.symbol :: ' ' :: r.printOnto (')' :: rest))

/-- The print of the tree. -/
def print (t : Tree) : Text := t.printOnto []

/-- Printing in front of a text leaves that as it is. -/
theorem printOnto_eq (t : Tree) (rest : Text) : t.printOnto rest = t.print ++ rest := by
  induction t generalizing rest with
  | const => simp [print, printOnto]
  | var => simp [print, printOnto]
  | binary op l r s ihl ihr =>
      simp only [print, printOnto]
      rw [ihl, ihr, ihl, ihr [')']]
      simp

/-- An operation is printed between brackets, with a space on either side of its operator. -/
theorem print_binary (op : Operator) (l r : Tree) (s : Source) :
    (binary op l r s).print =
      '(' :: l.print ++ ' ' :: op.symbol :: ' ' :: r.print ++ [')'] := by
  simp only [print, printOnto]
  rw [printOnto_eq l, printOnto_eq r]
  simp [print]

end InfixFormula.Tree

import InfixFormula.Chain

/-!
# Chains in other places

The places of a text can be counted from elsewhere or in another unit, and a text can become part of a
longer one.  A `Relocation` says what then becomes of positions and buffers.

The joining of a chain looks at its operators and at nothing else, and takes the spans of the operations
from those of the operands.  So a relocated chain is joined to the relocated tree, and one that breaks
breaks at the relocated position (`Chain.treeOf_relocated`).
-/

namespace InfixFormula

/-- What becomes of the places in a text and of the text itself. -/
structure Relocation where
  position : Nat → Nat
  buffer : Text → Text

def Span.relocated (m : Relocation) (s : Span) : Span := ⟨m.position s.start, m.position s.stop⟩

def Source.relocated (m : Relocation) (s : Source) : Source := ⟨m.buffer s.buffer, s.span.relocated m⟩

/-- The tree with its sources relocated. -/
def Tree.relocated (m : Relocation) : Tree → Tree
  | const x s => const x (s.relocated m)
  | var name => var name
  | binary op l r s => binary op (l.relocated m) (r.relocated m) (s.relocated m)

def Operand.relocated (m : Relocation) (o : Operand) : Operand := ⟨o.tree.relocated m, o.span.relocated m⟩

def Item.relocated (m : Relocation) : Item → Item
  | operand o => operand (o.relocated m)
  | operator op position => operator op (m.position position)

/-- The error with the position of its fault relocated. -/
def Error.relocated (m : Relocation) : Error → Error
  | malformed position fault => malformed (m.position position) fault
  | tooDeep limit phase => tooDeep limit phase
  | missingVariable name => missingVariable name
  | invalid defect => invalid defect

namespace Relocation

variable {α : Type} (m : Relocation)

/-- The outcome in the other places, where `f` relocates what is found. -/
def outcome (f : α → α) : Except Error α → Except Error α
  | .ok a => .ok (f a)
  | .error e => .error (e.relocated m)

@[simp] theorem outcome_ok (f : α → α) (a : α) : m.outcome f (.ok a) = .ok (f a) := rfl

@[simp] theorem outcome_error (f : α → α) (e : Error) :
    m.outcome f (.error e) = .error (e.relocated m) := rfl

end Relocation

namespace Chain

variable (m : Relocation)

def relocated (c : Chain) : Chain :=
  ⟨c.first.relocated m, c.links.map (fun link => (link.1, link.2.relocated m))⟩

/-- Items that stand elsewhere have the same links there, or the same fault at its new position. -/
theorem linksOf_relocated (items : List Item) :
    linksOf (items.map (Item.relocated m)) =
      m.outcome (List.map (fun link => (link.1, link.2.relocated m))) (linksOf items) := by
  induction items using linksOf.induct with
  | case1 => simp [linksOf]
  | case2 o items =>
      simp [linksOf, Item.relocated, Error.relocated, Operand.relocated, Span.relocated]
  | case3 op position => simp [linksOf, Item.relocated, Error.relocated]
  | case4 op position next position' items => simp [linksOf, Item.relocated, Error.relocated]
  | case5 op position o items links hlinks ih =>
      rw [hlinks] at ih
      simp only [List.map_cons, Item.relocated, linksOf, ih, hlinks, Relocation.outcome_ok]
  | case6 op position o items error herror ih =>
      rw [herror] at ih
      simp only [List.map_cons, Item.relocated, linksOf, ih, herror, Relocation.outcome_error]

/-- A chain is read elsewhere as it is here, with every position moved. -/
theorem ofItems_relocated (start : Nat) (items : List Item) :
    ofItems (m.position start) (items.map (Item.relocated m)) =
      m.outcome (Chain.relocated m) (ofItems start items) := by
  cases items with
  | nil => simp [ofItems, Error.relocated]
  | cons item items =>
      cases item with
      | operator op position => simp [ofItems, Item.relocated, Error.relocated]
      | operand o =>
          simp only [List.map_cons, Item.relocated, ofItems, linksOf_relocated]
          cases linksOf items <;> simp [relocated]

/-- Joining products does not look at where they stand. -/
theorem products_relocated (buffer : Text) (running : Operand) (links : List (Operator × Operand)) :
    products (m.buffer buffer) (running.relocated m)
        (links.map (fun link => (link.1, link.2.relocated m))) =
      (products buffer running links).relocated m := by
  induction links generalizing running with
  | nil => rfl
  | cons link links ih =>
      obtain ⟨op, o⟩ := link
      rw [List.map_cons, products, products]
      by_cases hop : op.isMultiplicative = true
      · simp only [hop, if_true]
        exact ih (operation buffer op running o)
      · simp only [hop, ih o]
        rfl

/-- Joining terms does not look at where they stand. -/
theorem sum_relocated (buffer : Text) (c : Chain) :
    (c.relocated m).sum (m.buffer buffer) = (c.sum buffer).relocated m := by
  obtain ⟨first, links⟩ := c
  simp only [sum, relocated]
  induction links generalizing first with
  | nil => rfl
  | cons link links ih => exact ih (operation buffer link.1 first link.2)

/-- The tree of a chain that stands elsewhere is its tree, moved there. -/
theorem tree_relocated (buffer : Text) (c : Chain) :
    (c.relocated m).tree (m.buffer buffer) = (c.tree buffer).relocated m := by
  have hproducts := products_relocated m buffer c.first c.links
  rw [tree, tree, relocated, hproducts, sum_relocated]
  rfl

/-- A chain is joined in other places as it is joined in its own. -/
theorem treeOf_relocated (buffer : Text) (start : Nat) (items : List Item) :
    treeOf (m.buffer buffer) (m.position start) (items.map (Item.relocated m)) =
      m.outcome (Tree.relocated m) (treeOf buffer start items) := by
  rw [treeOf, treeOf, ofItems_relocated]
  cases ofItems start items with
  | error e => rfl
  | ok c =>
      simp only [Relocation.outcome_ok, tree_relocated]

end Chain

end InfixFormula

import InfixFormula.Proofs.Precedence

/-!
# Groupings of a chain

Operands with operators between them can be grouped in many ways, and each way is a tree over the items
that keeps their order.  One way respects precedence: the right side of a product is a single operand and
its left side is an operand or a product, while the right side of a sum is an operand or a product
(`Grouping.IsByPrecedence`).  What the operands themselves are, bracket pairs with sums in them perhaps,
does not matter.

There is exactly one such grouping for each alternating list.  It is built from the left, one operator and
one operand at a time (`Grouping.attach`): a multiplicative operator that comes behind a sum takes the
right side of the sum only.  Taking a grouping by precedence apart and building it again leads back to it
(`Grouping.IsByPrecedence.extend_links`), so two of them with the same items are equal.

The two passes over a chain make the tree of this grouping
(`Grouping.IsByPrecedence.operand_chain`).  Where the list does not alternate, they fail at the first item
that is out of place (`Chain.exists_fault_of_ofItems`).
-/

namespace InfixFormula

namespace Item

/-- Whether the item is an operand. -/
def isOperand : Item → Bool
  | operand _ => true
  | operator _ _ => false

/-- Where the item starts. -/
def position : Item → Nat
  | operand o => o.span.start
  | operator _ position => position

end Item

/-- The list has operands with an operator between each two, and nothing else. -/
inductive IsAlternating : List Item → Prop where
  | single (o : Operand) : IsAlternating [.operand o]
  | more (o : Operand) (op : Operator) (position : Nat) {items : List Item}
      (h : IsAlternating items) : IsAlternating (.operand o :: .operator op position :: items)

/-- The first item that is no operand where one is due, or no operator; `operandIsDue` says which of the
two the list should start with. -/
def firstMisplaced? (operandIsDue : Bool) : List Item → Option Item
  | [] => none
  | item :: items =>
      if item.isOperand = operandIsDue then firstMisplaced? (!operandIsDue) items else some item

/-- Where a list that does not alternate goes wrong: at the first misplaced item, or else at its last item,
which lacks an operand behind it.  An empty list goes wrong at `start`. -/
def breakPosition (operandIsDue : Bool) (start : Nat) (items : List Item) : Nat :=
  match firstMisplaced? operandIsDue items with
  | some item => item.position
  | none =>
      match items.getLast? with
      | some item => item.position
      | none => start

/-- A way to group the items of a chain, in their order. -/
inductive Grouping where
  /-- One operand. -/
  | operand (o : Operand)
  /-- An operator, with its position, between two groups. -/
  | operation (op : Operator) (position : Nat) (left right : Grouping)

namespace Grouping

/-- The items from left to right. -/
def items : Grouping → List Item
  | operand o => [.operand o]
  | operation op position left right => left.items ++ .operator op position :: right.items

/-- The operand that results if the groups are joined from the inside out. -/
def joined (buffer : Text) : Grouping → Operand
  | operand o => o
  | operation op _ left right =>
      Chain.operation buffer op (left.joined buffer) (right.joined buffer)

/-- Whether it is an operand or a product. -/
def isTerm : Grouping → Bool
  | operand _ => true
  | operation op _ _ _ => op.isMultiplicative

/-- Multiplication and division bind tighter, and neighbours of the same strength group to the left. -/
inductive IsByPrecedence : Grouping → Prop where
  | operand (o : Operand) : IsByPrecedence (.operand o)
  | product {op : Operator} {position : Nat} {left : Grouping} (hop : op.isMultiplicative = true)
      (hleft : left.IsByPrecedence) (hterm : left.isTerm = true) (o : Operand) :
      IsByPrecedence (.operation op position left (.operand o))
  | sum {op : Operator} {position : Nat} {left right : Grouping} (hop : op.isMultiplicative = false)
      (hleft : left.IsByPrecedence) (hright : right.IsByPrecedence) (hterm : right.isTerm = true) :
      IsByPrecedence (.operation op position left right)

section Building

/-- The operand at the left end. -/
def first : Grouping → Operand
  | operand o => o
  | operation _ _ left _ => left.first

/-- The other operands, each with the operator in front of it and the position of that. -/
def links : Grouping → List (Operator × Nat × Operand)
  | operand _ => []
  | operation op position left right =>
      left.links ++ (op, position, right.first) :: right.links

/-- The grouping with an operator and another operand behind it. -/
def attach (op : Operator) (position : Nat) (o : Operand) : Grouping → Grouping
  | operand o' => operation op position (operand o') (operand o)
  | operation op' position' left right =>
      if op.isMultiplicative && !op'.isMultiplicative then
        operation op' position' left (right.attach op position o)
      else operation op position (operation op' position' left right) (operand o)

/-- Attaches operators with their operands from the left. -/
def extend (g : Grouping) (links : List (Operator × Nat × Operand)) : Grouping :=
  links.foldl (fun g link => g.attach link.1 link.2.1 link.2.2) g

/-- An operand and what follows it as items. -/
def spelled (first : Operand) (links : List (Operator × Nat × Operand)) : List Item :=
  .operand first :: links.flatMap (fun link => [.operator link.1 link.2.1, .operand link.2.2])

/-- Alternating items are operands with operators between them. -/
theorem exists_spelled {items : List Item} (h : IsAlternating items) :
    ∃ o links, items = spelled o links := by
  induction h with
  | single o => exact ⟨o, [], rfl⟩
  | more o op position h ih =>
      obtain ⟨o', links, rfl⟩ := ih
      exact ⟨o, (op, position, o') :: links, rfl⟩

/-- Behind a term, a multiplicative operator makes a term. -/
theorem isTerm_attach {op : Operator} (hop : op.isMultiplicative = true) (position : Nat) (o : Operand)
    {g : Grouping} (hg : g.isTerm = true) : (g.attach op position o).isTerm = true := by
  cases g with
  | operand o' => exact hop
  | operation op' position' left right =>
      have hop' : op'.isMultiplicative = true := hg
      simp [attach, hop', isTerm, hop]

/-- An operator with an operand behind a grouping; a multiplicative one needs a term at its left. -/
theorem IsByPrecedence.operation_operand {g : Grouping} (hg : g.IsByPrecedence) {op : Operator}
    (h : g.isTerm = true ∨ op.isMultiplicative = false) (position : Nat) (o : Operand) :
    (Grouping.operation op position g (.operand o)).IsByPrecedence := by
  cases hop : op.isMultiplicative with
  | true =>
      rw [hop] at h
      exact .product hop hg (by simpa using h) o
  | false => exact .sum hop hg (.operand o) rfl

/-- Going on with an operator and an operand keeps precedence. -/
theorem IsByPrecedence.attach {g : Grouping} (hg : g.IsByPrecedence) (op : Operator) (position : Nat)
    (o : Operand) : (g.attach op position o).IsByPrecedence := by
  induction hg with
  | operand o' => exact (IsByPrecedence.operand o').operation_operand (.inl rfl) position o
  | product hop' hleft hterm o' ih =>
      rw [Grouping.attach, hop', Bool.not_true, Bool.and_false]
      exact (IsByPrecedence.product hop' hleft hterm o').operation_operand (.inl hop') position o
  | sum hop' hleft hright hterm ihl ihr =>
      rw [Grouping.attach, hop', Bool.not_false, Bool.and_true]
      cases hop : op.isMultiplicative with
      | true => exact .sum hop' hleft ihr (isTerm_attach hop position o hterm)
      | false =>
          exact (IsByPrecedence.sum hop' hleft hright hterm).operation_operand (.inr hop) position o

/-- Attaching operands one by one keeps to precedence. -/
theorem IsByPrecedence.extend {g : Grouping} (hg : g.IsByPrecedence)
    (links : List (Operator × Nat × Operand)) : (g.extend links).IsByPrecedence := by
  induction links generalizing g with
  | nil => exact hg
  | cons link links ih => exact ih (hg.attach link.1 link.2.1 link.2.2)

/-- In a term by precedence there are only multiplicative operators. -/
theorem IsByPrecedence.links_multiplicative {g : Grouping} (hg : g.IsByPrecedence)
    (hterm : g.isTerm = true) : ∀ link ∈ g.links, link.1.isMultiplicative = true := by
  induction hg with
  | operand o => simp [links]
  | product hop hleft hleftTerm o ih =>
      intro link hlink
      simp only [links, List.mem_append, List.mem_singleton] at hlink
      rcases hlink with hlink | rfl
      · exact ih hleftTerm link hlink
      · exact hop
  | sum hop hleft hright hrightTerm ihl ihr =>
      have hmultiplicative : Operator.isMultiplicative _ = true := hterm
      rw [hop] at hmultiplicative
      cases hmultiplicative

end Building

section Joining

/-- The grouping without its groups. -/
def chain : Grouping → Chain
  | operand o => ⟨o, []⟩
  | operation op _ left right => left.chain.join op right.chain

/-- The items of a grouping alternate, and are read as its chain. -/
theorem ofItems_items (g : Grouping) (start : Nat) : Chain.ofItems start g.items = .ok g.chain := by
  induction g generalizing start with
  | operand o => rfl
  | operation op position left right ihl ihr => exact Chain.ofItems_append (ihl start) (ihr start) _

/-- The chain of a grouping has its operands and operators, without the positions. -/
theorem links_chain (g : Grouping) :
    g.chain.links = g.links.map (fun link => (link.1, link.2.2)) ∧ g.chain.first = g.first := by
  induction g with
  | operand o => exact ⟨rfl, rfl⟩
  | operation op position left right ihl ihr =>
      constructor
      · simp [chain, Chain.join, links, ihl, ihr]
      · exact ihl.2

/-- A term has only multiplicative operators. -/
theorem IsByPrecedence.links_chain_multiplicative {g : Grouping} (hg : g.IsByPrecedence)
    (hterm : g.isTerm = true) : ∀ link ∈ g.chain.links, link.1.isMultiplicative = true := by
  rw [g.links_chain.1, List.forall_mem_map]
  exact hg.links_multiplicative hterm

/-- The two passes over the chain join the groups as precedence has them. -/
theorem IsByPrecedence.operand_chain {g : Grouping} (hg : g.IsByPrecedence) (buffer : Text) :
    g.chain.operand buffer = g.joined buffer := by
  induction hg with
  | operand o => rfl
  | product hop hleft hterm o ih =>
      rw [chain, joined, ← ih]
      exact Chain.operand_join_multiplicative hop (hleft.links_chain_multiplicative hterm) rfl
  | sum hop hleft hright hterm ihl ihr =>
      rw [chain, joined, ← ihl, ← ihr]
      exact Chain.operand_join_additive hop (hright.links_chain_multiplicative hterm)

/-- The two passes rebuild the grouping that follows precedence. -/
theorem IsByPrecedence.treeOf_items {g : Grouping} (hg : g.IsByPrecedence) (buffer : Text)
    (start : Nat) : Chain.treeOf buffer start g.items = .ok (g.joined buffer).tree := by
  rw [Chain.treeOf, g.ofItems_items, ← hg.operand_chain]
  rfl

end Joining

end Grouping

section Faults

/-- Behind an operand an operator is due. -/
theorem breakPosition_operand (o : Operand) (start : Nat) (next : Item) (items : List Item) :
    breakPosition true start (.operand o :: next :: items) =
      breakPosition false start (next :: items) := by
  rw [breakPosition, List.getLast?_cons_cons]
  rfl

/-- Behind an operator an operand is due. -/
theorem breakPosition_operator (op : Operator) (position start : Nat) (next : Item)
    (items : List Item) :
    breakPosition false start (.operator op position :: next :: items) =
      breakPosition true start (next :: items) := by
  rw [breakPosition, List.getLast?_cons_cons]
  rfl

/-- Behind an operand, the fault is where the list goes wrong. -/
theorem Chain.exists_fault_of_linksOf {items : List Item} (start : Nat) {e : Error}
    (h : linksOf items = .error e) :
    ∃ fault, e = .malformed (breakPosition false start items) fault := by
  induction items using linksOf.induct with
  | case1 => cases h
  | case2 o items =>
      cases h
      exact ⟨_, rfl⟩
  | case3 op position =>
      cases h
      exact ⟨_, rfl⟩
  | case4 op position next position' items =>
      cases h
      exact ⟨_, rfl⟩
  | case5 op position o items links hlinks ih => simp [linksOf, hlinks] at h
  | case6 op position o items e' he' ih =>
      obtain rfl : e' = e := by simpa [linksOf, he'] using h
      obtain ⟨fault, hfault⟩ := ih he'
      cases items with
      | nil => cases he'
      | cons item items =>
          refine ⟨fault, ?_⟩
          rw [breakPosition_operator, breakPosition_operand]
          exact hfault

/-- The joining fails where the list goes wrong. -/
theorem Chain.exists_fault_of_ofItems {items : List Item} {start : Nat} {e : Error}
    (h : ofItems start items = .error e) :
    ∃ fault, e = .malformed (breakPosition true start items) fault := by
  cases items with
  | nil =>
      cases h
      exact ⟨_, rfl⟩
  | cons item items =>
      cases item with
      | operator op position =>
          cases h
          exact ⟨_, rfl⟩
      | operand o =>
          rw [ofItems] at h
          cases hlinks : linksOf items with
          | ok links =>
              rw [hlinks] at h
              cases h
          | error e' =>
              rw [hlinks] at h
              cases h
              obtain ⟨fault, rfl⟩ := exists_fault_of_linksOf start hlinks
              cases items with
              | nil => cases hlinks
              | cons item items => exact ⟨fault, by rw [breakPosition_operand]⟩

/-- Items that have no tree fail where the alternation breaks. -/
theorem Chain.exists_fault_of_treeOf {buffer : Text} {items : List Item} {start : Nat} {e : Error}
    (h : treeOf buffer start items = .error e) :
    ∃ fault, e = .malformed (breakPosition true start items) fault := by
  rw [treeOf] at h
  split at h
  · cases h
  · next hitems =>
      cases h
      exact exists_fault_of_ofItems hitems

end Faults

end InfixFormula

import InfixFormula.Bracket
import InfixFormula.Piece

/-!
# Reading by recursive descent

The plain way to read a formula follows its nesting.  A piece that is no leaf is read from left to
right; the inside of each bracket pair, and what stands between brackets and operators, is read as a
piece of its own one level deeper, and the partner of an opening bracket is found by counting brackets
inside the piece alone.

One level is `itemsFrom`.  It takes the reading of the level below as an argument, so what is said about
it needs nothing but what is known about that reading.  `descend` ties the levels together, and ends
because no level lies beyond the limit.

This reading has the same answers as the one with a stack (`InfixFormula.Scan`), and nesting shows in
it as recursion, which makes it the easier of the two to reason about.
-/

namespace InfixFormula.Reader

/-- The operand that stands between brackets and operators, if there is more than layout; `below` reads
the next level. -/
def operandBetween (below : Nat → Text → Except Error Operand) (mark : Nat) (t : Text) :
    Except Error (List Item) :=
  if t.isBlank then .ok []
  else
    match below mark t with
    | .error e => .error e
    | .ok o => .ok [.operand o]

/-- The items of a compound piece from position `position` on, where `rest` is left of it; the characters
from `mark` up to there are `pending`, the latest first, and `below` reads the next level. -/
def itemsFrom (below : Nat → Text → Except Error Operand) (mark : Nat) (pending : Text)
    (position : Nat) (rest : Text) : Except Error (List Item) :=
  match rest with
  | [] => operandBetween below mark pending.reverse
  | c :: tail =>
      if c = '(' then
        match operandBetween below mark pending.reverse with
        | .error e => .error e
        | .ok new =>
            match Bracket.closingOffset? 0 tail with
            | none => .error (.malformed position .unmatchedOpening)
            | some k =>
                match below (position + 1) (tail.take k) with
                | .error e => .error e
                | .ok o =>
                    let next := position + k + 2
                    match itemsFrom below next [] next (tail.drop (k + 1)) with
                    | .error e => .error e
                    | .ok later => .ok (new ++ .operand ⟨o.tree, ⟨position, next⟩⟩ :: later)
      else if c = ')' then .error (.malformed position .unmatchedClosing)
      else
        match Operator.ofChar? c with
        | some op =>
            match operandBetween below mark pending.reverse with
            | .error e => .error e
            | .ok new =>
                match itemsFrom below (position + 1) [] (position + 1) tail with
                | .error e => .error e
                | .ok later => .ok (new ++ .operator op position :: later)
        | none => itemsFrom below mark (c :: pending) (position + 1) tail
termination_by rest.length

/-- The operand that the stretch `t` writes, which stands at position `start` and at level `depth`.  Its
span leaves out the layout at the ends. -/
def descend (r : Reader) (depth start : Nat) (t : Text) : Except Error Operand :=
  match _h : r.piece depth start t with
  | .error e => .error e
  | .ok (.leaf o) => .ok o
  | .ok (.compound contents range) =>
      match itemsFrom (fun position u => r.descend (depth + 1) position u)
          range.start [] range.start contents with
      | .error e => .error e
      | .ok items =>
          match Chain.treeOf r.buffer range.start items with
          | .error e => .error e
          | .ok tree => .ok ⟨tree, range⟩
termination_by r.limit + 1 - depth
decreasing_by
  have hle := depth_le_of_piece _h
  omega

section Items

variable (below : Nat → Text → Except Error Operand) (mark : Nat) (pending : Text) (position : Nat)
  (tail : Text)

/-- At the end of a level, what waits is the last operand, if it is one. -/
theorem itemsFrom_nil :
    itemsFrom below mark pending position [] = operandBetween below mark pending.reverse := by
  rw [itemsFrom]

/-- An opening bracket ends the operand before it.  What stands inside the pair is read one level down,
and the reading goes on behind the closing bracket. -/
theorem itemsFrom_opening :
    itemsFrom below mark pending position ('(' :: tail) =
      match operandBetween below mark pending.reverse with
      | .error e => .error e
      | .ok new =>
          match Bracket.closingOffset? 0 tail with
          | none => .error (.malformed position .unmatchedOpening)
          | some k =>
              match below (position + 1) (tail.take k) with
              | .error e => .error e
              | .ok o =>
                  match itemsFrom below (position + k + 2) [] (position + k + 2)
                    (tail.drop (k + 1)) with
                  | .error e => .error e
                  | .ok later =>
                      .ok (new ++ .operand ⟨o.tree, ⟨position, position + k + 2⟩⟩ :: later) := by
  rw [itemsFrom, if_pos rfl]

/-- A closing bracket that is met on the way has no partner, since those with one are jumped over. -/
theorem itemsFrom_closing :
    itemsFrom below mark pending position (')' :: tail) =
      .error (.malformed position .unmatchedClosing) := by
  rw [itemsFrom, if_neg (by decide), if_pos rfl]

/-- An operator ends the operand before it and is an item itself. -/
theorem itemsFrom_operator (op : Operator) :
    itemsFrom below mark pending position (op.symbol :: tail) =
      match operandBetween below mark pending.reverse with
      | .error e => .error e
      | .ok new =>
          match itemsFrom below (position + 1) [] (position + 1) tail with
          | .error e => .error e
          | .ok later => .ok (new ++ .operator op position :: later) := by
  rw [itemsFrom, if_neg (by cases op <;> decide), if_neg (by cases op <;> decide),
    Operator.ofChar?_symbol]

/-- Every other character joins the operand that waits. -/
theorem itemsFrom_other {c : Char} (hc : Literal.isDelimiter c = false) :
    itemsFrom below mark pending position (c :: tail) =
      itemsFrom below mark (c :: pending) (position + 1) tail := by
  have hopen : c ≠ '(' := by
    rintro rfl
    cases hc
  have hclose : c ≠ ')' := by
    rintro rfl
    cases hc
  rw [itemsFrom, if_neg hopen, if_neg hclose, Operator.ofChar?_eq_none hc]

end Items

section Pieces

variable {r : Reader} {depth start : Nat} {t : Text}

/-- A stretch that is no piece is no operand either. -/
theorem descend_of_error {e : Error} (h : r.piece depth start t = .error e) :
    r.descend depth start t = .error e := by
  rw [descend]
  split <;> simp_all

/-- A leaf needs no further descent. -/
theorem descend_of_leaf {o : Operand} (h : r.piece depth start t = .ok (.leaf o)) :
    r.descend depth start t = .ok o := by
  rw [descend]
  split <;> simp_all

/-- A compound piece becomes the tree of its items, whose brackets are read one level deeper. -/
theorem descend_of_compound {contents : Text} {range : Span}
    (h : r.piece depth start t = .ok (.compound contents range)) :
    r.descend depth start t =
      match itemsFrom (r.descend (depth + 1)) range.start [] range.start contents with
      | .error e => .error e
      | .ok items =>
          match Chain.treeOf r.buffer range.start items with
          | .error e => .error e
          | .ok tree => .ok ⟨tree, range⟩ := by
  rw [descend]
  split <;> simp_all

end Pieces

/-- What has no brackets and operators is a leaf if it is anything, so reading it as a piece of its own
is looking at it. -/
theorem operandBetween_descend (r : Reader) (depth mark : Nat) {t : Text}
    (ht : t.any Literal.isDelimiter = false) :
    operandBetween (r.descend depth) mark t = r.pendingItems depth mark t := by
  unfold operandBetween pendingItems
  cases hp : r.piece depth mark t with
  | error e => rw [descend_of_error hp]
  | ok p =>
      cases p with
      | leaf o => rw [descend_of_leaf hp]
      | compound contents range =>
          obtain ⟨-, -, -, hany, -, -⟩ := piece_eq_compound_iff.mp hp
          obtain ⟨c, hmem, hc⟩ := List.any_eq_true.mp hany
          exact absurd hc (List.any_eq_false.mp ht c (Text.mem_of_mem_trim hmem))

end InfixFormula.Reader

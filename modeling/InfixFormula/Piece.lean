import InfixFormula.Chain
import InfixFormula.Text.Blank

/-!
# Pieces of a formula text

A piece is a stretch of a formula text: the whole text, the inside of a bracket pair, or what stands
between brackets and operators.  Without the layout at its ends it is a leaf, that is a literal or a
variable, or it is compound: it has brackets or operators and is still to be taken apart.

Literals come first, so a minus sign in front of a lone number belongs to the number.
-/

namespace InfixFormula

/-- The value of a number or percentage literal. -/
def Literal.value? (t : Text) : Option Float :=
  match Literal.numberValue? t with
  | some x => some x
  | none => Literal.percentageValue? t

/-- A character is a bracket, writes an operator, or belongs to a token or the layout. -/
theorem Literal.eq_bracket_or_symbol_or_other (c : Char) :
    c = '(' ∨ c = ')' ∨ (∃ op : Operator, c = op.symbol) ∨ Literal.isDelimiter c = false := by
  by_cases hc : Literal.isDelimiter c = true
  · simp only [Literal.isDelimiter, Bool.or_eq_true, beq_iff_eq] at hc
    rcases hc with ((((h | h) | h) | h) | h) | h
    · exact .inl h
    · exact .inr (.inl h)
    · exact .inr (.inr (.inl ⟨.multiply, h⟩))
    · exact .inr (.inr (.inl ⟨.divide, h⟩))
    · exact .inr (.inr (.inl ⟨.add, h⟩))
    · exact .inr (.inr (.inl ⟨.subtract, h⟩))
  · exact .inr (.inr (.inr (by simpa using hc)))

/-- The symbols of the operators delimit tokens. -/
theorem Literal.isDelimiter_symbol (op : Operator) : Literal.isDelimiter op.symbol = true := by
  cases op <;> rfl

/-- What delimits no token is the symbol of no operator. -/
theorem Operator.ofChar?_eq_none {c : Char} (hc : Literal.isDelimiter c = false) :
    Operator.ofChar? c = none := by
  cases hop : Operator.ofChar? c with
  | none => rfl
  | some op =>
      obtain rfl := Operator.symbol_of_ofChar? hop
      rw [Literal.isDelimiter_symbol] at hc
      cases hc

/-- Where a text that starts at position `start` stands without the layout at its ends. -/
def Text.coreSpan (t : Text) (start : Nat) : Span :=
  ⟨start + t.margin.length, start + t.margin.length + t.trim.length⟩

/-- What a stretch of text turned out to be. -/
inductive Piece where
  /-- A literal or a variable, with its span. -/
  | leaf (o : Operand)
  /-- A text with brackets or operators, without layout at its ends, and its span. -/
  | compound (contents : Text) (range : Span)

/-- What stays the same while one text is read. -/
structure Reader where
  /-- The deepest level that may be reached; the whole text is at level 0. -/
  limit : Nat
  /-- The whole text. -/
  buffer : Text

namespace Reader

/-- Says what the stretch `t` is, which stands at position `start` of the buffer and at level
`depth`. -/
def piece (r : Reader) (depth start : Nat) (t : Text) : Except Error Piece :=
  if r.limit < depth then .error (.tooDeep r.limit .parsing)
  else if t.trim.isEmpty then .error (.malformed (start + t.length) .emptyExpression)
  else
    let core := t.trim
    let first := start + t.margin.length
    let range : Span := ⟨first, first + core.length⟩
    match Literal.value? core with
    | some x => .ok (.leaf ⟨.const x ⟨r.buffer, range⟩, range⟩)
    | none =>
        if core.any Literal.isDelimiter then .ok (.compound core range)
        else
          match Literal.rejection core with
          | some fault => .error (.malformed first (.badToken fault core))
          | none => .ok (.leaf ⟨.var core, range⟩)

/-- The operand that stands between brackets and operators, if there is more than layout.  A stretch
without brackets and operators is never compound. -/
def pendingItems (r : Reader) (depth start : Nat) (t : Text) : Except Error (List Item) :=
  if t.isBlank then .ok []
  else
    match r.piece depth start t with
    | .ok (.leaf o) => .ok [.operand o]
    | .ok (.compound _ range) => .error (.malformed range.start .missingOperator)
    | .error e => .error e

/-- A piece is compound if it is no literal and has brackets or operators. -/
theorem piece_eq_compound_iff {r : Reader} {depth start : Nat} {t contents : Text} {range : Span} :
    r.piece depth start t = .ok (.compound contents range) ↔
      depth ≤ r.limit ∧ t.isBlank = false ∧ Literal.value? t.trim = none ∧
        t.trim.any Literal.isDelimiter = true ∧ contents = t.trim ∧ range = t.coreSpan start := by
  unfold piece Text.coreSpan
  rw [Text.isEmpty_trim]
  grind

/-- A piece is a leaf if it is a literal, or a token that nothing speaks against as a name. -/
theorem piece_eq_leaf_iff {r : Reader} {depth start : Nat} {t : Text} {o : Operand} :
    r.piece depth start t = .ok (.leaf o) ↔
      depth ≤ r.limit ∧ t.isBlank = false ∧ o.span = t.coreSpan start ∧
        ((∃ x, Literal.value? t.trim = some x ∧ o.tree = .const x ⟨r.buffer, t.coreSpan start⟩) ∨
          Literal.value? t.trim = none ∧ t.trim.any Literal.isDelimiter = false ∧
            Literal.rejection t.trim = none ∧ o.tree = .var t.trim) := by
  obtain ⟨tree, span⟩ := o
  unfold piece Text.coreSpan
  rw [Text.isEmpty_trim]
  grind

/-- What is beyond the limit is not looked at. -/
theorem depth_le_of_piece {r : Reader} {depth start : Nat} {t : Text} {p : Piece}
    (h : r.piece depth start t = .ok p) : depth ≤ r.limit := by
  cases p with
  | leaf o => exact (piece_eq_leaf_iff.mp h).1
  | compound contents range => exact (piece_eq_compound_iff.mp h).1

/-- A compound piece is no longer than the stretch it was found in. -/
theorem length_le_of_piece {r : Reader} {depth start : Nat} {t contents : Text} {range : Span}
    (h : r.piece depth start t = .ok (.compound contents range)) :
    contents.length ≤ t.length := by
  obtain ⟨-, -, -, -, rfl, -⟩ := piece_eq_compound_iff.mp h
  exact Text.length_trim_le t

end Reader

end InfixFormula

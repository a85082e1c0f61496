import InfixFormula.Proofs.FaultTexts
import InfixFormula.Proofs.Grammar
import InfixFormula.Proofs.Partners

/-!
# Where a fault lies

`Fault.LiesAt` says what a fault at a position means for the text, in terms of the text alone: which
characters stand there and beside it, which bracket has no partner, what the token is.

The faults of alternation are found after a whole bracket level has been read, in the list of its items.
`Row` says how the items stand in the text: with nothing but layout between them, and with a bracket or
an operator behind each leaf.  So the first item that breaks the alternation is where its fault lies
(`liesIn_of_ofItems`).
-/

namespace InfixFormula

namespace Text

/-- The first character that is no layout. -/
def firstVisible? (t : Text) : Option Char := t.find? (fun c => !isLayout c)

/-- The last character that is no layout. -/
def lastVisible? (t : Text) : Option Char := firstVisible? t.reverse

/-- Nothing but layout stands behind the last opening bracket, or in the text. -/
def OpensLevel (t : Text) : Prop := t.lastVisible? = none ∨ t.lastVisible? = some '('

/-- Nothing but layout stands before the next closing bracket, or in the text. -/
def ClosesLevel (t : Text) : Prop := t.firstVisible? = none ∨ t.firstVisible? = some ')'

/-- But for layout, the text is over or starts with a bracket or an operator. -/
def StartsDelimited (t : Text) : Prop := ∀ c ∈ t.firstVisible?, Literal.isDelimiter c = true

/-- But for layout, the text is empty or ends with a bracket or an operator. -/
def EndsDelimited (t : Text) : Prop := ∀ c ∈ t.lastVisible?, Literal.isDelimiter c = true

/-- What stands between the two texts is an operand: a bracket pair with a content in it, or a leaf with
no other token beside it. -/
inductive IsOperandBetween (before : Text) : Text → Text → Prop where
  | pair (inside : Phrase .content) (after : Text) : IsOperandBetween before inside.pair.text after
  | leaf (l : Leaf) (hl : l.isSigned = false) {after : Text} (hbefore : before.EndsDelimited)
      (hafter : after.StartsDelimited) : IsOperandBetween before l.text after

end Text

/-- The position of the text is where the fault is. -/
def Fault.LiesAt (t : Text) (p : Nat) : Fault → Prop
  | emptyExpression =>
      (t.isBlank = true ∧ p = t.length) ∨
        (t[p]? = some ')' ∧ Text.lastVisible? (t.take p) = some '(')
  | unmatchedOpening => t[p]? = some '(' ∧ Bracket.IsFirstUnmatched t p
  | unmatchedClosing => t[p]? = some ')' ∧ Bracket.IsFirstUnmatched t p
  | missingLeftOperand op => t[p]? = some op.symbol ∧ Text.OpensLevel (t.take p)
  | missingRightOperand op => t[p]? = some op.symbol ∧ Text.ClosesLevel (t.drop (p + 1))
  | unexpectedOperator op previous =>
      t[p]? = some op.symbol ∧ Text.lastVisible? (t.take p) = some previous.symbol
  | missingOperator => ∃ before left between right after : Text,
      t = before ++ left ++ between ++ right ++ after ∧ between.isBlank = true ∧
      p = (before ++ left ++ between).length ∧
      Text.IsOperandBetween before left (between ++ right ++ after) ∧
      Text.IsOperandBetween (before ++ left ++ between) right after ∧
      (right.head? = some '(' ∨ left.getLast? = some ')')
  | badToken fault token => ∃ before stretch after : Text,
      t = before ++ stretch ++ after ∧ stretch.any Literal.isDelimiter = false ∧
      (∀ c ∈ before.getLast?, Literal.isDelimiter c = true) ∧
      (∀ c ∈ after.head?, Literal.isDelimiter c = true) ∧
      token = stretch.trim ∧ p = (before ++ stretch.margin).length ∧
      Literal.rejection token = some fault
  | described _ => False

/-- If the error is a fault of the text, it lies at its position. -/
def Error.LiesIn (t : Text) : Error → Prop
  | malformed position fault => fault.LiesAt t position
  | _ => True

/-- Brackets and operators are no layout. -/
theorem Literal.isLayout_of_isDelimiter {c : Char} (hc : isDelimiter c = true) : isLayout c = false := by
  rcases eq_bracket_or_symbol_or_other c with rfl | rfl | ⟨op, rfl⟩ | hother
  · rfl
  · rfl
  · cases op <;> rfl
  · rw [hother] at hc
    cases hc

namespace Text

/-- Layout in front is not seen. -/
theorem firstVisible?_append {w : Text} (hw : w.isBlank = true) (t : Text) :
    firstVisible? (w ++ t) = t.firstVisible? := by
  have hnone : w.find? (fun c => !isLayout c) = none := by
    rw [List.find?_eq_none]
    intro c hc
    simp [List.all_eq_true.mp hw c hc]
  rw [firstVisible?, List.find?_append, hnone, Option.none_or, firstVisible?]

theorem firstVisible?_cons {c : Char} (hc : isLayout c = false) (t : Text) :
    firstVisible? (c :: t) = some c := by
  simp [firstVisible?, hc]

/-- Layout behind is not seen. -/
theorem lastVisible?_append {w : Text} (hw : w.isBlank = true) (t : Text) :
    lastVisible? (t ++ w) = t.lastVisible? := by
  rw [lastVisible?, List.reverse_append, firstVisible?_append (by rwa [isBlank_reverse]), lastVisible?]

theorem lastVisible?_concat {c : Char} (hc : isLayout c = false) (t : Text) :
    lastVisible? (t ++ [c]) = some c := by
  rw [lastVisible?, List.reverse_append]
  exact firstVisible?_cons hc t.reverse

/-- The layout at the start can be cut off. -/
theorem exists_eq_append_firstVisible? (t : Text) :
    ∃ w u : Text, t = w ++ u ∧ w.isBlank = true ∧ u.head? = t.firstVisible? := by
  refine ⟨t.margin, t.trimStart, t.margin_trimStart.symm, t.isBlank_margin, ?_⟩
  have hsplit := firstVisible?_append t.isBlank_margin t.trimStart
  rw [t.margin_trimStart] at hsplit
  rw [hsplit]
  cases htrim : t.trimStart with
  | nil => rfl
  | cons c u => exact (firstVisible?_cons (head_trimStart htrim) u).symm

/-- The layout at the end can be cut off. -/
theorem exists_eq_append_lastVisible? (t : Text) :
    ∃ u w : Text, t = u ++ w ∧ w.isBlank = true ∧ u.getLast? = t.lastVisible? := by
  obtain ⟨w, u, hsplit, hw, hhead⟩ := exists_eq_append_firstVisible? t.reverse
  refine ⟨u.reverse, w.reverse, ?_, by rwa [isBlank_reverse], ?_⟩
  · rw [← List.reverse_append, ← hsplit, List.reverse_reverse]
  · rw [List.getLast?_reverse, hhead, lastVisible?]

/-- The front of a text delimits. -/
theorem endsDelimited_nil : EndsDelimited [] := by
  intro c hc
  cases hc

/-- The end of a text delimits. -/
theorem startsDelimited_nil : StartsDelimited [] := by
  intro c hc
  cases hc

/-- A delimiter at the end delimits what follows. -/
theorem endsDelimited_concat {c : Char} (hc : Literal.isDelimiter c = true) (t : Text) :
    EndsDelimited (t ++ [c]) := by
  intro d hd
  rw [lastVisible?_concat (Literal.isLayout_of_isDelimiter hc)] at hd
  cases hd
  exact hc

/-- A delimiter at the start delimits what stands before. -/
theorem startsDelimited_cons {c : Char} (hc : Literal.isDelimiter c = true) (t : Text) :
    StartsDelimited (c :: t) := by
  intro d hd
  rw [firstVisible?_cons (Literal.isLayout_of_isDelimiter hc)] at hd
  cases hd
  exact hc

/-- Layout behind a delimiter changes nothing. -/
theorem EndsDelimited.append {t w : Text} (h : t.EndsDelimited) (hw : w.isBlank = true) :
    EndsDelimited (t ++ w) := by
  intro c hc
  rw [lastVisible?_append hw] at hc
  exact h c hc

/-- Layout before a delimiter changes nothing. -/
theorem StartsDelimited.append {t w : Text} (h : t.StartsDelimited) (hw : w.isBlank = true) :
    StartsDelimited (w ++ t) := by
  intro c hc
  rw [firstVisible?_append hw] at hc
  exact h c hc

/-- Where a level starts, an operand may start. -/
theorem OpensLevel.endsDelimited {t : Text} (h : t.OpensLevel) : t.EndsDelimited := by
  intro c hc
  rcases h with h | h
  · rw [h] at hc
    cases hc
  · rw [h] at hc
    cases hc
    rfl

/-- Where a level ends, an operand may end. -/
theorem ClosesLevel.startsDelimited {t : Text} (h : t.ClosesLevel) : t.StartsDelimited := by
  intro c hc
  rcases h with h | h
  · rw [h] at hc
    cases hc
  · rw [h] at hc
    cases hc
    rfl

end Text

/-- A fault lies in the text or at its end. -/
theorem Fault.LiesAt.le_length {t : Text} {p : Nat} {fault : Fault} (h : fault.LiesAt t p) :
    p ≤ t.length := by
  have hchar : ∀ {c : Char}, t[p]? = some c → p ≤ t.length := by
    intro c hc
    obtain ⟨hp, -⟩ := List.getElem?_eq_some_iff.mp hc
    exact Nat.le_of_lt hp
  cases fault with
  | emptyExpression =>
      rcases h with ⟨-, rfl⟩ | ⟨hc, -⟩
      · exact Nat.le_refl _
      · exact hchar hc
  | unmatchedOpening => exact hchar h.1
  | unmatchedClosing => exact hchar h.1
  | missingLeftOperand op => exact hchar h.1
  | missingRightOperand op => exact hchar h.1
  | unexpectedOperator op previous => exact hchar h.1
  | missingOperator =>
      obtain ⟨before, left, between, right, after, rfl, -, rfl, -⟩ := h
      rw [List.append_assoc]
      simp only [List.length_append]
      omega
  | badToken fault token =>
      obtain ⟨before, stretch, after, rfl, -, -, -, -, rfl, -⟩ := h
      have hmargin := congrArg List.length stretch.margin_trimStart
      simp only [List.length_append] at hmargin ⊢
      omega
  | described text => exact h.elim

/-- A fault that lies somewhere is one that a reading can report. -/
theorem Fault.LiesAt.isNamed {t : Text} {p : Nat} {fault : Fault} (h : fault.LiesAt t p) :
    fault.isNamed = true := by
  cases fault with
  | described text => exact h.elim
  | _ => rfl

theorem Operator.isLayout_symbol (op : Operator) : isLayout op.symbol = false := by
  cases op <;> rfl

theorem Phrase.getLast?_text_pair (inside : Phrase .content) : inside.pair.text.getLast? = some ')' :=
  List.getLast?_concat (l := '(' :: inside.text)

/-- A text that is cut at a character has the character there. -/
theorem Text.cut {t before after : Text} {c : Char} (h : t = before ++ c :: after) :
    t[before.length]? = some c ∧ t.take before.length = before ∧ t.drop (before.length + 1) = after := by
  subst h
  refine ⟨by simp, List.take_left, ?_⟩
  rw [← List.drop_drop, List.drop_left]
  rfl

section Row

variable {buffer after front : Text}

/-- The items are found in the text that stands behind `front` and goes on with `after`: operators,
bracket pairs and leaves with layout between them.  Behind a leaf (`behindLeaf`) stands no other one. -/
inductive Row (buffer after : Text) : (behindLeaf : Bool) → (front t : Text) → List Item → Prop where
  | nil {behindLeaf : Bool} {front : Text} (w : Layout) :
      Row buffer after behindLeaf front (w.text ++ after) []
  | operator {behindLeaf : Bool} {front t : Text} {items : List Item} (w : Layout) (op : Operator)
      (h : Row buffer after false (front ++ w.text ++ [op.symbol]) t items) :
      Row buffer after behindLeaf front (w.text ++ op.symbol :: t)
        (.operator op (front ++ w.text).length :: items)
  | pair {behindLeaf : Bool} {front t : Text} {items : List Item} (w : Layout) (inside : Phrase .content)
      (h : Row buffer after false (front ++ w.text ++ inside.pair.text) t items) :
      Row buffer after behindLeaf front (w.text ++ (inside.pair.text ++ t))
        (.operand (inside.pair.operand buffer (front ++ w.text).length) :: items)
  | leaf {front t : Text} {items : List Item} (w : Layout) (l : Leaf) (hl : l.isSigned = false)
      (h : Row buffer after true (front ++ w.text ++ l.text) t items) :
      Row buffer after false front (w.text ++ (l.text ++ t))
        (.operand (l.operand buffer (front ++ w.text).length) :: items)

namespace Row

/-- Layout may be added in front. -/
theorem blank_append {behindLeaf : Bool} {t : Text} {items : List Item} (w : Layout)
    (h : Row buffer after behindLeaf (front ++ w.text) t items) :
    Row buffer after behindLeaf front (w.text ++ t) items := by
  have hfront : ∀ v : Layout, front ++ w.text ++ v.text = front ++ (w.append v).text :=
    fun v => List.append_assoc _ _ _
  have htext : ∀ (v : Layout) (u : Text), w.text ++ (v.text ++ u) = (w.append v).text ++ u :=
    fun v u => (List.append_assoc _ _ _).symm
  cases h with
  | nil v =>
      rw [htext]
      exact .nil _
  | operator v op h =>
      rw [hfront] at h ⊢
      rw [htext]
      exact .operator _ op h
  | pair v inside h =>
      rw [hfront] at h ⊢
      rw [htext]
      exact .pair _ inside h
  | leaf v l hl h =>
      rw [hfront] at h ⊢
      rw [htext]
      exact .leaf _ l hl h

/-- Behind a leaf, the text is over or goes on with a bracket or an operator. -/
theorem startsDelimited {t : Text} {items : List Item} (h : Row buffer after true front t items)
    (hafter : after.StartsDelimited) : t.StartsDelimited := by
  cases h with
  | nil w => exact hafter.append w.blank
  | operator w op h => exact (Text.startsDelimited_cons (Literal.isDelimiter_symbol op) _).append w.blank
  | pair w inside h => exact (Text.startsDelimited_cons rfl _).append w.blank

/-- Where there is more than layout, there are items. -/
theorem ne_nil {t : Text} {items : List Item} (h : Row buffer after false front (t ++ after) items)
    (ht : t.any Literal.isDelimiter = true) : items ≠ [] := by
  rintro rfl
  generalize htext : t ++ after = u at h
  cases h with
  | nil w =>
      rw [List.append_cancel_right htext, w.any_isDelimiter] at ht
      cases ht

end Row

/-- The stretch behind `before` is an operand as far as the text in front of it goes. -/
inductive StandsBehind (before : Text) : (isLeaf : Bool) → Text → Prop where
  | pair (inside : Phrase .content) : StandsBehind before false inside.pair.text
  | leaf (l : Leaf) (hl : l.isSigned = false) (hbefore : before.EndsDelimited) :
      StandsBehind before true l.text

/-- A pair is an operand whatever follows it, and a leaf is one in front of the rest of its row. -/
theorem StandsBehind.isOperandBetween {before u t : Text} {isLeaf : Bool} {items : List Item}
    (hu : StandsBehind before isLeaf u) (h : Row buffer after isLeaf front t items)
    (hafter : after.StartsDelimited) : before.IsOperandBetween u t := by
  cases hu with
  | pair inside => exact .pair inside t
  | leaf l hl hbefore => exact .leaf l hl hbefore (h.startsDelimited hafter)

/-- An operand may start behind an operator. -/
theorem endsDelimited_symbol (t : Text) (op : Operator) : Text.EndsDelimited (t ++ [op.symbol]) :=
  Text.endsDelimited_concat (Literal.isDelimiter_symbol op) t

/-- A closing bracket delimits, so an operand behind it lacks its operator. -/
theorem endsDelimited_pair (t : Text) (inside : Phrase .content) :
    Text.EndsDelimited (t ++ inside.pair.text) := by
  rw [Phrase.text, ← List.cons_append, ← List.append_assoc]
  exact Text.endsDelimited_concat rfl _

/-- Two operands side by side lack an operator. -/
theorem liesAt_missingOperator {before left right rest : Text} (w : Layout)
    (hbuffer : buffer = before ++ left ++ (w.text ++ (right ++ rest)))
    (hleft : before.IsOperandBetween left (w.text ++ (right ++ rest)))
    (hright : Text.IsOperandBetween (before ++ left ++ w.text) right rest)
    (hends : right.head? = some '(' ∨ left.getLast? = some ')') :
    Fault.missingOperator.LiesAt buffer (before ++ left ++ w.text).length := by
  refine ⟨before, left, w.text, right, rest, ?_, w.blank, rfl, ?_, hright, hends⟩
  · rw [hbuffer]
    simp
  · rwa [List.append_assoc]

/-- **Faults behind an operand.**  The first item that breaks the alternation lies where the fault is. -/
theorem liesIn_of_linksOf (hafter : after.ClosesLevel) {more : List Item} {before u t : Text}
    {isLeaf : Bool} (hu : StandsBehind before isLeaf u) (hbuffer : buffer = before ++ u ++ t)
    (hrow : Row buffer after isLeaf (before ++ u) t more) {e : Error}
    (he : Chain.linksOf more = .error e) : e.LiesIn buffer := by
  induction more using Chain.linksOf.induct generalizing before u t isLeaf with
  | case1 => cases he
  | case2 o items =>
      cases he
      have hleft := hu.isOperandBetween hrow hafter.startsDelimited
      cases hrow with
      | pair w inside h => exact liesAt_missingOperator w hbuffer hleft (.pair inside _) (.inl rfl)
      | leaf w l hl h =>
          cases hu with
          | pair left =>
              have hends := (endsDelimited_pair before left).append w.blank
              have hright := h.startsDelimited hafter.startsDelimited
              exact liesAt_missingOperator w hbuffer hleft (.leaf l hl hends hright)
                (.inr left.getLast?_text_pair)
  | case3 op position =>
      cases he
      cases hrow with
      | operator w op h =>
          cases h with
          | nil w' =>
              rw [← List.append_assoc] at hbuffer
              obtain ⟨hchar, -, hbehind⟩ := Text.cut hbuffer
              refine ⟨hchar, ?_⟩
              rw [hbehind, Text.ClosesLevel, Text.firstVisible?_append w'.blank]
              exact hafter
  | case4 op position next position' items =>
      cases he
      cases hrow with
      | operator w op h =>
          cases h with
          | @operator _ _ t items w' next h =>
              have hcut : buffer =
                  before ++ u ++ w.text ++ [op.symbol] ++ w'.text ++ next.symbol :: t := by
                simpa using hbuffer
              obtain ⟨hchar, hfront, -⟩ := Text.cut hcut
              refine ⟨hchar, ?_⟩
              rw [hfront, Text.lastVisible?_append w'.blank, Text.lastVisible?_concat op.isLayout_symbol]
  | case5 op position o items links hlinks ih => simp [Chain.linksOf, hlinks] at he
  | case6 op position o items e' he' ih =>
      obtain rfl : e' = e := by simpa [Chain.linksOf, he'] using he
      cases hrow with
      | operator w op h =>
          cases h with
          | @pair _ _ t items w' inside h =>
              exact ih (.pair inside) (by simpa using hbuffer) h he'
          | @leaf _ t items w' l hl h =>
              have hends := (endsDelimited_symbol (before ++ u ++ w.text) op).append w'.blank
              exact ih (.leaf l hl hends) (by simpa using hbuffer) h he'

/-- Once there is a first operand, the fault is in the links. -/
theorem Chain.linksOf_of_ofItems {start : Nat} {o : Operand} {items : List Item} {e : Error}
    (h : Chain.ofItems start (.operand o :: items) = .error e) : Chain.linksOf items = .error e := by
  rw [Chain.ofItems] at h
  cases hlinks : Chain.linksOf items with
  | ok links =>
      rw [hlinks] at h
      cases h
  | error e' =>
      rw [hlinks] at h
      cases h
      rfl

/-- **Faults of alternation.**  If items have been found, the first one that breaks the alternation lies
where the fault is. -/
theorem liesIn_of_ofItems (hfront : front.OpensLevel) (hafter : after.ClosesLevel) {start : Nat}
    {items : List Item} (hitems : items ≠ []) {t : Text} (hbuffer : buffer = front ++ t)
    (hrow : Row buffer after false front t items) {e : Error}
    (he : Chain.ofItems start items = .error e) : e.LiesIn buffer := by
  cases hrow with
  | nil w => exact absurd rfl hitems
  | operator w op h =>
      cases he
      rw [← List.append_assoc] at hbuffer
      obtain ⟨hchar, hbefore, -⟩ := Text.cut hbuffer
      refine ⟨hchar, ?_⟩
      rw [hbefore, Text.OpensLevel, Text.lastVisible?_append w.blank]
      exact hfront
  | @pair _ _ t items w inside h =>
      exact liesIn_of_linksOf hafter (.pair inside) (by simpa using hbuffer) h
        (Chain.linksOf_of_ofItems he)
  | @leaf _ t items w l hl h =>
      have hends : Text.EndsDelimited (front ++ w.text) := hfront.endsDelimited.append w.blank
      exact liesIn_of_linksOf hafter (.leaf l hl hends) (by simpa using hbuffer) h
        (Chain.linksOf_of_ofItems he)

end Row

end InfixFormula

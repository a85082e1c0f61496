import InfixFormula.Proofs.Precedence
import InfixFormula.Proofs.StackReading

/-!
# What is read is the grammar

A text is read exactly if it is a content whose nesting is within the limit, and then the tree is the
one of its derivation (`Tree.parse_eq_ok_iff`).

The reading is taken level by level, in the form of the recursive descent.  One level is right if the
level below it is, in both directions: a phrase is read to its items if `below` reads the contents in it
(`itemsFrom_phrase`), and what is read is spelled with leaves and bracket pairs if `below` reads nothing
but contents (`spelled_of_itemsFrom`).  What is spelled so and makes a chain is a phrase again, and its
items are joined to its tree (`InfixFormula.Proofs.Precedence`).

A text has more characters than levels, so a limit of its length is no limit.
-/

namespace InfixFormula

/-- A content that starts at the position, without the layout at its ends. -/
def Phrase.core (buffer : Text) (c : Phrase .content) (start : Nat) : Operand :=
  ⟨c.tree buffer start, c.text.coreSpan start⟩

/-- A content is never blank. -/
theorem Phrase.isBlank_text (c : Phrase .content) : c.text.isBlank = false := by
  cases c with
  | sole before l after => exact Text.isBlank_between before.blank l.isTight_text after.blank
  | compound before inner after hleaf hcontent =>
      exact Text.isBlank_between before.blank (inner.isTight_text hcontent) after.blank

/-- Layout delimits no tokens. -/
theorem Layout.any_isDelimiter (w : Layout) : w.text.any Literal.isDelimiter = false := by
  rw [List.any_eq_false]
  intro c hc
  have hlayout : isLayout c = true := List.all_eq_true.mp w.blank c hc
  rcases Literal.eq_bracket_or_symbol_or_other c with rfl | rfl | ⟨op, rfl⟩ | hother
  · cases hlayout
  · cases hlayout
  · cases op <;> cases hlayout
  · simp [hother]

/-- The core of a sole leaf is the leaf, behind the layout. -/
theorem Phrase.core_sole (buffer : Text) (before : Layout) (l : Leaf) (after : Layout) (start : Nat) :
    (Phrase.sole before l after).core buffer start = l.operand buffer (start + before.text.length) := by
  have hspan : (Phrase.sole before l after).text.coreSpan start =
      ⟨start + before.text.length, start + before.text.length + l.text.length⟩ :=
    Text.coreSpan_between before.blank l.isTight_text after.blank start
  rw [Phrase.core, hspan]
  rfl

/-- The core of a compound content is what stands between the layout. -/
theorem Phrase.core_compound (buffer : Text) {k : Kind} (before : Layout) (inner : Phrase k)
    (after : Layout) (hleaf : k ≠ .leaf) (hcontent : k ≠ .content) (start : Nat) :
    (Phrase.compound before inner after hleaf hcontent).core buffer start =
      inner.operand buffer (start + before.text.length) := by
  have hspan : (Phrase.compound before inner after hleaf hcontent).text.coreSpan start =
      inner.span (start + before.text.length) :=
    Text.coreSpan_between before.blank (inner.isTight_text hcontent) after.blank start
  rw [Phrase.core, hspan]
  rfl

/-- A text that is no single token is a compound content if it is a phrase between layout. -/
theorem Phrase.exists_compound_of_trim {k : Kind} {p : Phrase k} {t : Text} {w w' : Layout}
    (hk : k ≠ .content) (htrim : t.trim = w.text ++ p.text ++ w'.text)
    (hdelimiter : t.trim.any Literal.isDelimiter = true) :
    ∃ (before after : Layout) (hleaf : k ≠ .leaf),
      (Phrase.compound before p after hleaf hk).text = t ∧
      before.text.length = t.margin.length + w.text.length := by
  obtain ⟨v', hv', hsplit⟩ := t.exists_eq_margin_trim
  have hleaf : k ≠ .leaf := by
    rintro rfl
    cases p with
    | leaf l hl =>
        rw [htrim, List.any_append, List.any_append, w.any_isDelimiter, w'.any_isDelimiter,
          Phrase.text, l.any_isDelimiter_text, hl] at hdelimiter
        cases hdelimiter
  refine ⟨.append ⟨t.margin, t.isBlank_margin⟩ w, .append w' ⟨v', hv'⟩, hleaf, ?_, ?_⟩
  · calc t.margin ++ w.text ++ p.text ++ (w'.text ++ v')
        = t.margin ++ (w.text ++ p.text ++ w'.text) ++ v' := by simp
      _ = t := by rw [← htrim, ← hsplit]
  · exact List.length_append

namespace Reader

section Level

variable {below : Nat → Text → Except Error Operand} {buffer : Text} {n mark position : Nat}

/-- The contents with fewer than `n` levels are read. -/
def ReadsAll (below : Nat → Text → Except Error Operand) (buffer : Text) (n : Nat) : Prop :=
  ∀ (c : Phrase .content) (start : Nat), c.nesting < n →
    below start c.text = .ok (c.core buffer start)

/-- Nothing is read but contents with fewer than `n` levels. -/
def ReadsOnly (below : Nat → Text → Except Error Operand) (buffer : Text) (n : Nat) : Prop :=
  ∀ (start : Nat) (t : Text) (o : Operand), below start t = .ok o →
    ∃ c : Phrase .content, c.text = t ∧ c.nesting < n ∧ o = c.core buffer start

/-- What has no brackets and operators is collected. -/
theorem itemsFrom_append {u : Text} (hu : u.any Literal.isDelimiter = false) (pending rest : Text)
    (position : Nat) :
    itemsFrom below mark pending position (u ++ rest) =
      itemsFrom below mark (u.reverse ++ pending) (position + u.length) rest := by
  induction u generalizing pending position with
  | nil => rfl
  | cons c u ih =>
      rw [List.any_cons, Bool.or_eq_false_iff] at hu
      rw [List.cons_append, itemsFrom_other _ _ _ _ _ hu.1, ih hu.2, List.reverse_cons,
        List.append_assoc, List.singleton_append, List.length_cons,
        show position + 1 + u.length = position + (u.length + 1) by omega]

/-- The text is over or goes on with an operator. -/
def EndsOperand (rest : Text) : Prop :=
  rest = [] ∨ ∃ (op : Operator) (tail : Text), rest = op.symbol :: tail

/-- Where an operand ends, the collected characters become an item. -/
theorem itemsFrom_flush {rest pending : Text} {new : List Item} (hrest : EndsOperand rest)
    (hnew : operandBetween below mark pending.reverse = .ok new) :
    itemsFrom below mark pending position rest =
      (itemsFrom below position [] position rest).map (new ++ ·) := by
  rcases hrest with rfl | ⟨op, tail, rfl⟩
  · rw [itemsFrom_nil, itemsFrom_nil, hnew]
    simp [operandBetween, Text.isBlank, Except.map]
  · rw [itemsFrom_operator, itemsFrom_operator, hnew]
    cases itemsFrom below (position + 1) [] (position + 1) tail with
    | error e => rfl
    | ok later => rfl

/-- Layout alone is no operand. -/
theorem operandBetween_layout (w : Layout) : operandBetween below mark w.text = .ok [] := by
  rw [operandBetween, if_pos w.blank]

/-- Behind a bracket pair or an operator, layout is nothing. -/
theorem itemsFrom_layout (w : Layout) {rest : Text} (hrest : EndsOperand rest) (position : Nat) :
    itemsFrom below position [] position (w.text ++ rest) =
      itemsFrom below (position + w.text.length) [] (position + w.text.length) rest := by
  have hnew : operandBetween below position (w.text.reverse ++ []).reverse = .ok [] := by
    rw [List.append_nil, List.reverse_reverse]
    exact operandBetween_layout w
  rw [itemsFrom_append w.any_isDelimiter, itemsFrom_flush hrest hnew]
  cases itemsFrom below (position + w.text.length) [] (position + w.text.length) rest <;> rfl

/-- A leaf without a sign is one operand. -/
theorem itemsFrom_leaf (hbelow : ReadsAll below buffer n) (hn : 0 < n) (before : Layout) {l : Leaf}
    (hl : l.isSigned = false) (after : Layout) {rest : Text} (hrest : EndsOperand rest) :
    itemsFrom below mark before.text.reverse (mark + before.text.length)
        (l.text ++ after.text ++ rest) =
      (itemsFrom below (mark + before.text.length + l.text.length + after.text.length) []
        (mark + before.text.length + l.text.length + after.text.length) rest).map
          ((Phrase.leaf l hl).items buffer (mark + before.text.length) ++ ·) := by
  have hplain : (l.text ++ after.text).any Literal.isDelimiter = false := by
    rw [List.any_append, l.any_isDelimiter_text, hl, after.any_isDelimiter]
    rfl
  have hnew : operandBetween below mark
      ((l.text ++ after.text).reverse ++ before.text.reverse).reverse =
        .ok ((Phrase.leaf l hl).items buffer (mark + before.text.length)) := by
    have hread := hbelow (.sole before l after) mark hn
    have hblank := (Phrase.sole before l after).isBlank_text
    rw [Phrase.core_sole] at hread
    rw [← List.reverse_append, List.reverse_reverse, ← List.append_assoc]
    rw [Phrase.text] at hread hblank
    rw [operandBetween, hblank, hread]
    rfl
  rw [itemsFrom_append hplain, itemsFrom_flush hrest hnew, List.length_append, ← Nat.add_assoc]

/-- A bracket pair is one operand. -/
theorem itemsFrom_pair (hbelow : ReadsAll below buffer n) (before : Layout)
    {inside : Phrase .content} (hn : inside.nesting < n) (after : Layout) {rest : Text}
    (hrest : EndsOperand rest) (position : Nat) :
    itemsFrom below mark before.text.reverse position
        (inside.pair.text ++ after.text ++ rest) =
      (itemsFrom below (position + inside.pair.text.length + after.text.length) []
        (position + inside.pair.text.length + after.text.length) rest).map
          (inside.pair.items buffer position ++ ·) := by
  have htext : inside.pair.text ++ after.text ++ rest =
      '(' :: (inside.text ++ ')' :: (after.text ++ rest)) := by
    simp [Phrase.text]
  have hclosing := Bracket.closingOffset?_balanced inside.isBalanced_text (after.text ++ rest)
  have htake : (inside.text ++ ')' :: (after.text ++ rest)).take inside.text.length =
      inside.text :=
    List.take_left
  have hdrop : (inside.text ++ ')' :: (after.text ++ rest)).drop (inside.text.length + 1) =
      after.text ++ rest := by
    rw [← List.drop_drop, List.drop_left]
    rfl
  have hnext : position + inside.text.length + 2 = position + inside.pair.text.length := by
    rw [Phrase.length_text_pair]
    omega
  rw [htext, itemsFrom_opening, List.reverse_reverse, operandBetween_layout]
  simp only [hclosing, htake, hdrop, hbelow inside (position + 1) hn, hnext, List.nil_append]
  rw [itemsFrom_layout after hrest]
  cases itemsFrom below (position + inside.pair.text.length + after.text.length) []
      (position + inside.pair.text.length + after.text.length) rest with
  | error e => rfl
  | ok later => rfl

/-- **A phrase is read to its items.** -/
theorem itemsFrom_phrase (hbelow : ReadsAll below buffer n) {k : Kind} (p : Phrase k)
    (hk : k ≠ .content) (hn : p.nesting < n) (mark : Nat) (before after : Layout) {rest : Text}
    (hrest : EndsOperand rest) :
    itemsFrom below mark before.text.reverse (mark + before.text.length)
        (p.text ++ after.text ++ rest) =
      (itemsFrom below (mark + before.text.length + p.text.length + after.text.length) []
        (mark + before.text.length + p.text.length + after.text.length) rest).map
          (p.items buffer (mark + before.text.length) ++ ·) := by
  induction p generalizing mark before after rest with
  | leaf l hl => exact itemsFrom_leaf hbelow hn before hl after hrest
  | pair inside ih => exact itemsFrom_pair hbelow before hn after hrest _
  | operation op left before' after' right hleft hright ihl ihr =>
      -- The left operand ends at the operator; the right one starts with the layout behind it.
      have hnesting : left.nesting < n ∧ right.nesting < n := Nat.max_lt.mp hn
      have htext : (Phrase.operation op left before' after' right hleft hright).text ++ after.text ++
          rest = left.text ++ before'.text ++
            op.symbol :: (after'.text ++ (right.text ++ after.text ++ rest)) := by
        simp [Phrase.text]
      have hstop := Phrase.rightStart_add_length op left before' after' right hleft hright
        (mark + before.text.length)
      rw [Phrase.rightStart] at hstop
      rw [htext, ihl (Kind.ne_content_of_le hleft) hnesting.1 mark before before'
          (.inr ⟨op, _, rfl⟩),
        itemsFrom_operator, List.reverse_nil, show operandBetween below _ [] = .ok [] from rfl]
      dsimp only
      rw [itemsFrom_append after'.any_isDelimiter, List.append_nil,
        ihr (Kind.ne_content_of_le (Nat.le_of_lt hright)) hnesting.2 _ after' after hrest, hstop]
      cases itemsFrom below _ [] _ rest with
      | error e => rfl
      | ok later => simp [Except.map, Phrase.items, Phrase.rightStart]
  | sole before' l after' => exact absurd rfl hk
  | compound before' inner after' hleaf hcontent ih => exact absurd rfl hk

/-- Items in front of a spelled text, if a text that is spelled with them stands in front. -/
theorem spelled_of_operandBetween (hbelow : ReadsOnly below buffer n) {t : Text}
    (ht : t.any Literal.isDelimiter = false) {new : List Item}
    (hnew : operandBetween below mark t = .ok new) {rest : Text} {later : List Item}
    (hlater : Phrase.Spelled buffer n (mark + t.length) rest later) :
    Phrase.Spelled buffer n mark (t ++ rest) (new ++ later) := by
  unfold operandBetween at hnew
  split at hnew
  · next hblank =>
      cases hnew
      exact hlater.blank_append ⟨t, hblank⟩
  · split at hnew
    · cases hnew
    · next o ho =>
        cases hnew
        obtain ⟨c, rfl, hn, rfl⟩ := hbelow _ _ _ ho
        cases c with
        | sole before l after =>
            have hl : l.isSigned = false := by
              simp only [Phrase.text, List.any_append, Bool.or_eq_false_iff] at ht
              rw [← l.any_isDelimiter_text]
              exact ht.1.2
            have hstop : mark + (Phrase.sole before l after).text.length =
                mark + before.text.length + (Phrase.leaf l hl).text.length + after.text.length := by
              simp only [Phrase.text, List.length_append]
              omega
            rw [hstop] at hlater
            have hoperand := Phrase.Spelled.operand before (.leaf l hl) rfl hn
              (hlater.blank_append after)
            have htext : (Phrase.sole before l after).text ++ rest =
                before.text ++ (Phrase.leaf l hl).text ++ (after.text ++ rest) := by
              simp [Phrase.text]
            rw [Phrase.core_sole, htext]
            exact hoperand
        | compound before inner after hleaf hcontent =>
            have hinner := inner.any_isDelimiter_text hleaf hcontent
            simp [Phrase.text, hinner] at ht

/-- An operator and what is spelled behind it are spelled together. -/
theorem spelled_operator (op : Operator) {rest : Text} {later : List Item}
    (h : Phrase.Spelled buffer n (position + 1) rest later) :
    Phrase.Spelled buffer n position (op.symbol :: rest) (.operator op position :: later) :=
  .operator .none op h

/-- A pair whose inside is read, and what is spelled behind it, are spelled together. -/
theorem spelled_pair (hbelow : ReadsOnly below buffer n) {tail : Text} {k : Nat} {o : Operand}
    (hk : Bracket.closingOffset? 0 tail = some k) (ho : below (position + 1) (tail.take k) = .ok o)
    {later : List Item}
    (h : Phrase.Spelled buffer n (position + k + 2) (tail.drop (k + 1)) later) :
    Phrase.Spelled buffer n position ('(' :: tail)
      (.operand ⟨o.tree, ⟨position, position + k + 2⟩⟩ :: later) := by
  obtain ⟨inside, hinside, hn, rfl⟩ := hbelow _ _ _ ho
  have hlt := Bracket.closingOffset?_lt hk
  have hlength : inside.text.length = k := by
    rw [hinside, List.length_take, Nat.min_eq_left (Nat.le_of_lt hlt)]
  have hnext : position + k + 2 = position + inside.pair.text.length := by
    rw [Phrase.length_text_pair]
    omega
  have htext : '(' :: tail = inside.pair.text ++ tail.drop (k + 1) := by
    have hcut := Bracket.take_append_closing_append_drop hk
    rw [← hinside] at hcut
    rw [Phrase.text, List.cons_append, List.append_assoc, List.singleton_append, hcut]
  rw [hnext] at h ⊢
  rw [htext]
  exact .operand .none inside.pair rfl hn h

/-- What is read from an opening bracket on. -/
theorem exists_of_itemsFrom_opening {pending tail : Text} {found : List Item}
    (h : itemsFrom below mark pending position ('(' :: tail) = .ok found) :
    ∃ new k o later,
      operandBetween below mark pending.reverse = .ok new ∧
      Bracket.closingOffset? 0 tail = some k ∧
      below (position + 1) (tail.take k) = .ok o ∧
      itemsFrom below (position + k + 2) [] (position + k + 2) (tail.drop (k + 1)) = .ok later ∧
      found = new ++ .operand ⟨o.tree, ⟨position, position + k + 2⟩⟩ :: later := by
  rw [itemsFrom_opening] at h
  cases hnew : operandBetween below mark pending.reverse with
  | error e => simp [hnew] at h
  | ok new =>
      cases hk : Bracket.closingOffset? 0 tail with
      | none => simp [hnew, hk] at h
      | some k =>
          cases ho : below (position + 1) (tail.take k) with
          | error e => simp [hnew, hk, ho] at h
          | ok o =>
              cases hlater : itemsFrom below (position + k + 2) [] (position + k + 2)
                  (tail.drop (k + 1)) with
              | error e => simp [hnew, hk, ho, hlater] at h
              | ok later =>
                  simp only [hnew, hk, ho, hlater, Except.ok.injEq] at h
                  exact ⟨new, k, o, later, rfl, rfl, ho, hlater, h.symm⟩

/-- What is read from an operator on. -/
theorem exists_of_itemsFrom_operator {pending tail : Text} {op : Operator} {found : List Item}
    (h : itemsFrom below mark pending position (op.symbol :: tail) = .ok found) :
    ∃ new later,
      operandBetween below mark pending.reverse = .ok new ∧
      itemsFrom below (position + 1) [] (position + 1) tail = .ok later ∧
      found = new ++ .operator op position :: later := by
  rw [itemsFrom_operator] at h
  cases hnew : operandBetween below mark pending.reverse with
  | error e => simp [hnew] at h
  | ok new =>
      cases hlater : itemsFrom below (position + 1) [] (position + 1) tail with
      | error e => simp [hnew, hlater] at h
      | ok later =>
          simp only [hnew, hlater, Except.ok.injEq] at h
          exact ⟨new, later, rfl, rfl, h.symm⟩

/-- **What is read is spelled.**  If the level below reads only contents, a level finds leaves, bracket
pairs and operators. -/
theorem spelled_of_itemsFrom (hbelow : ReadsOnly below buffer n) {mark position : Nat}
    {pending rest : Text} (hpending : pending.any Literal.isDelimiter = false)
    (hposition : position = mark + pending.reverse.length) {found : List Item}
    (h : itemsFrom below mark pending position rest = .ok found) :
    Phrase.Spelled buffer n mark (pending.reverse ++ rest) found := by
  have hplain : pending.reverse.any Literal.isDelimiter = false := by rwa [List.any_reverse]
  cases rest with
  | nil =>
      rw [itemsFrom_nil] at h
      have hspelled := spelled_of_operandBetween hbelow hplain h (.nil .none)
      rwa [List.append_nil] at hspelled
  | cons c tail =>
      rcases Literal.eq_bracket_or_symbol_or_other c with rfl | rfl | ⟨op, rfl⟩ | hc
      · obtain ⟨new, k, o, later, hnew, hk, ho, hlater, rfl⟩ := exists_of_itemsFrom_opening h
        have hbehind := spelled_of_itemsFrom hbelow rfl rfl hlater
        have hpair := spelled_pair hbelow hk ho hbehind
        rw [hposition] at hpair ⊢
        exact spelled_of_operandBetween hbelow hplain hnew hpair
      · rw [itemsFrom_closing] at h
        cases h
      · obtain ⟨new, later, hnew, hlater, rfl⟩ := exists_of_itemsFrom_operator h
        have hbehind := spelled_of_itemsFrom hbelow rfl rfl hlater
        have hoperator := spelled_operator op hbehind
        rw [hposition] at hoperator ⊢
        exact spelled_of_operandBetween hbelow hplain hnew hoperator
      · rw [itemsFrom_other _ _ _ _ _ hc] at h
        have hcollected : (c :: pending).any Literal.isDelimiter = false := by
          rw [List.any_cons, hc]
          exact hpending
        have hnext : position + 1 = mark + (c :: pending).reverse.length := by
          rw [List.length_reverse] at hposition ⊢
          rw [hposition]
          rfl
        have hspelled := spelled_of_itemsFrom hbelow hcollected hnext h
        rwa [List.reverse_cons, List.append_assoc] at hspelled
termination_by rest.length

end Level

section Descent

variable {r : Reader} {depth start : Nat}

/-- A sole leaf is a leaf. -/
theorem piece_sole (hdepth : depth ≤ r.limit) (start : Nat) (before : Layout) (l : Leaf)
    (after : Layout) :
    r.piece depth start (Phrase.sole before l after).text =
      .ok (.leaf ((Phrase.sole before l after).core r.buffer start)) := by
  rw [Phrase.core_sole]
  exact piece_between hdepth before.blank l after.blank

/-- A compound content is still to be taken apart, without the layout around it. -/
theorem piece_compound (hdepth : depth ≤ r.limit) {k : Kind} (before : Layout) (inner : Phrase k)
    (after : Layout) (hleaf : k ≠ .leaf) (hcontent : k ≠ .content) :
    r.piece depth start (Phrase.compound before inner after hleaf hcontent).text =
      .ok (.compound inner.text (inner.span (start + before.text.length))) := by
  have hspan : (Phrase.compound before inner after hleaf hcontent).text.coreSpan start =
      inner.span (start + before.text.length) :=
    congrArg Operand.span (Phrase.core_compound r.buffer before inner after hleaf hcontent start)
  have htrim : (Phrase.compound before inner after hleaf hcontent).text.trim = inner.text :=
    Text.trim_between before.blank (inner.isTight_text hcontent) after.blank
  rw [piece_eq_compound_iff, htrim, hspan]
  exact ⟨hdepth, Phrase.isBlank_text _, inner.value?_text hleaf hcontent,
    inner.any_isDelimiter_text hleaf hcontent, rfl, rfl⟩

/-- Whatever is in the grammar is read. -/
theorem descend_content {depth start : Nat} (c : Phrase .content)
    (hdepth : depth + c.nesting ≤ r.limit) :
    r.descend depth start c.text = .ok (c.core r.buffer start) := by
  cases c with
  | sole before l after =>
      have hlimit : depth ≤ r.limit := Nat.le_trans (Nat.le_add_right _ _) hdepth
      exact descend_of_leaf (piece_sole hlimit start before l after)
  | compound before inner after hleaf hcontent =>
      rw [Phrase.nesting] at hdepth
      have hbelow : ReadsAll (r.descend (depth + 1)) r.buffer (r.limit - depth) :=
        fun c start hc => descend_content c (by omega)
      have hitems := itemsFrom_phrase hbelow inner hcontent (by omega)
        (start + before.text.length) .none .none (.inl rfl)
      simp only [Layout.none, List.reverse_nil, List.length_nil, Nat.add_zero, List.append_nil,
        itemsFrom_nil] at hitems
      rw [descend_of_compound (piece_compound (by omega) before inner after hleaf hcontent),
        Phrase.core_compound]
      simp only [Phrase.span, hitems, operandBetween, Text.isBlank, List.all_nil, if_true,
        Except.map, List.append_nil, Phrase.treeOf_items]
      rfl
termination_by r.limit + 1 - depth

/-- Nothing else is read. -/
theorem exists_of_descend {depth start : Nat} {t : Text} {o : Operand}
    (h : r.descend depth start t = .ok o) :
    ∃ c : Phrase .content,
      c.text = t ∧ depth + c.nesting ≤ r.limit ∧ o = c.core r.buffer start := by
  cases hpiece : r.piece depth start t with
  | error e =>
      rw [descend_of_error hpiece] at h
      cases h
  | ok piece =>
      have hdepth := depth_le_of_piece hpiece
      cases piece with
      | leaf o' =>
          rw [descend_of_leaf hpiece] at h
          cases h
          obtain ⟨w, l, w', hw, hw', rfl, -⟩ := exists_leaf_of_piece hpiece
          have hsole := piece_sole hdepth start ⟨w, hw⟩ l ⟨w', hw'⟩
          rw [Phrase.text, hpiece] at hsole
          cases hsole
          exact ⟨.sole ⟨w, hw⟩ l ⟨w', hw'⟩, rfl, hdepth, rfl⟩
      | compound contents range =>
          obtain ⟨-, -, -, hdelimiter, rfl, rfl⟩ := piece_eq_compound_iff.mp hpiece
          have hbelow : ReadsOnly (r.descend (depth + 1)) r.buffer (r.limit - depth) := by
            intro start u o hu
            obtain ⟨c, hc, hn, ho⟩ := exists_of_descend hu
            exact ⟨c, hc, by omega, ho⟩
          rw [descend_of_compound hpiece] at h
          split at h
          · cases h
          · next found hfound =>
              have hspelled := spelled_of_itemsFrom hbelow rfl rfl hfound
              cases hchain : Chain.ofItems (t.coreSpan start).start found with
              | error e => simp [Chain.treeOf, hchain] at h
              | ok chain =>
                  obtain ⟨k, w, p, w', hk, hn, htrim, rfl⟩ :=
                    Phrase.exists_of_ofItems hspelled hchain
                  obtain ⟨before, after, hleaf, htext, hbefore⟩ :=
                    Phrase.exists_compound_of_trim hk htrim hdelimiter
                  have hnesting : depth + (p.nesting + 1) ≤ r.limit := by omega
                  have hstart : start + before.text.length =
                      (t.coreSpan start).start + w.text.length := by
                    rw [hbefore, ← Nat.add_assoc]
                    rfl
                  refine ⟨_, htext, hnesting, ?_⟩
                  rw [Phrase.treeOf_items] at h
                  cases h
                  rw [Phrase.core, htext, ← hstart]
                  rfl
termination_by r.limit + 1 - depth

/-- **One level of the grammar.**  A stretch is read exactly if it is a content that the limit has room
for. -/
theorem descend_eq_ok_iff {t : Text} {o : Operand} :
    r.descend depth start t = .ok o ↔
      ∃ c : Phrase .content,
        c.text = t ∧ depth + c.nesting ≤ r.limit ∧ o = c.core r.buffer start := by
  constructor
  · exact exists_of_descend
  · rintro ⟨c, rfl, hdepth, rfl⟩
    exact descend_content c hdepth

end Descent

end Reader

/-- **Reading is the grammar.**  A text has a tree exactly if it is a content within the limit, and the
tree is the one of its derivation. -/
theorem Tree.parse_eq_ok_iff {limit : Nat} {text : Text} {tree : Tree} :
    Tree.parse limit text = .ok tree ↔
      ∃ c : Phrase .content,
        c.text = Bracket.ascii text ∧ c.nesting ≤ limit ∧ tree = c.tree (Bracket.ascii text) 0 := by
  rw [Tree.parse, Reader.tree_eq_descend]
  constructor
  · intro h
    cases hread : Reader.descend ⟨limit, Bracket.ascii text⟩ 0 0 (Bracket.ascii text) with
    | error e => simp [hread, Except.map] at h
    | ok o =>
        rw [hread] at h
        cases h
        obtain ⟨c, hc, hdepth, rfl⟩ := Reader.descend_eq_ok_iff.mp hread
        exact ⟨c, hc, by simpa using hdepth, rfl⟩
  · rintro ⟨c, hc, hdepth, rfl⟩
    have hread : Reader.descend ⟨limit, Bracket.ascii text⟩ 0 0 (Bracket.ascii text) =
        .ok (c.core (Bracket.ascii text) 0) :=
      Reader.descend_eq_ok_iff.mpr ⟨c, hc, by simpa using hdepth, rfl⟩
    rw [hread]
    rfl

/-- A text has one tree, under whatever limit it is read. -/
theorem Tree.parse_unique {limit limit' : Nat} {text : Text} {t u : Tree}
    (ht : Tree.parse limit text = .ok t) (hu : Tree.parse limit' text = .ok u) : t = u := by
  have hlarge : ∀ {l : Nat} {v : Tree}, l ≤ max limit limit' → Tree.parse l text = .ok v →
      Tree.parse (max limit limit') text = .ok v := by
    intro l v hle hv
    obtain ⟨c, hc, hnesting, htree⟩ := Tree.parse_eq_ok_iff.mp hv
    exact Tree.parse_eq_ok_iff.mpr ⟨c, hc, Nat.le_trans hnesting hle, htree⟩
  have hsame := (hlarge (Nat.le_max_left _ _) ht).symm.trans (hlarge (Nat.le_max_right _ _) hu)
  exact Except.ok.inj hsame

/-- **The formulas of the grammar.**  If the limit is not below the length of the text, a text is read
as a formula with the given outline exactly if it is a content with that outline. -/
theorem Formula.parse_iff_exists_phrase {limit : Nat} {text : Text} (hlimit : text.length ≤ limit)
    (o : Outline) :
    (∃ f, Formula.parse limit text = .ok f ∧ f.tree.outline = o) ↔
      ∃ c : Phrase .content, c.text = Bracket.ascii text ∧ c.outline = o := by
  constructor
  · rintro ⟨f, hf, rfl⟩
    obtain ⟨c, hc, -, htree⟩ := Tree.parse_eq_ok_iff.mp (Formula.parse_eq_ok_iff.mp hf).1
    exact ⟨c, hc, by rw [htree, c.outline_tree]⟩
  · rintro ⟨c, hc, rfl⟩
    have hnesting : c.nesting ≤ limit := by
      have hlength := c.nesting_le_length.1
      rw [hc, Bracket.length_ascii] at hlength
      omega
    refine ⟨⟨c.tree (Bracket.ascii text) 0, text, Dict.empty⟩, ?_, c.outline_tree _ _⟩
    exact Formula.parse_eq_ok_iff.mpr
      ⟨Tree.parse_eq_ok_iff.mpr ⟨c, hc, hnesting, rfl⟩, rfl, rfl⟩

/-- The phrase `(1 + x) * 2%`. -/
def Phrase.sample : Phrase .content :=
  let one : Leaf := .number ⟨false, ['1'], []⟩
    ⟨List.forall_mem_singleton.mpr rfl, List.forall_mem_nil _, .inl (List.cons_ne_nil _ _)⟩
  let two : Leaf := .percentage ⟨false, ['2'], []⟩
    ⟨⟨List.forall_mem_singleton.mpr rfl, List.forall_mem_nil _, .inl (List.cons_ne_nil _ _)⟩,
      List.cons_ne_nil _ _⟩
  let x : Leaf := .name ['x'] ⟨List.cons_ne_nil _ _, List.forall_mem_singleton.mpr rfl,
    List.forall_mem_singleton.mpr rfl, by simp, by simp⟩
  let space : Layout := ⟨[' '], rfl⟩
  let sum : Phrase (.operation .add) :=
    .operation .add (.leaf one rfl) space space (.leaf x rfl) (by decide) (by decide)
  let pair : Phrase .pair := .pair (.compound .none sum .none (by decide) (by decide))
  let product : Phrase (.operation .multiply) :=
    .operation .multiply pair space space (.leaf two rfl) (by decide) (by decide)
  .compound .none product .none (by decide) (by decide)

/-- The brackets group the sum, which is multiplied by a percentage.  Brackets of both styles and blanks
leave no trace. -/
theorem Formula.parse_sample_outline :
    ∃ f, Formula.parse 12 "（1 + x） * 2%".toList = .ok f ∧
      f.tree.outline = .binary .multiply
        (.binary .add (.const (Decimal.toFloat ⟨false, ['1'], []⟩)) (.var ['x']))
        (.const (Decimal.toFloat ⟨false, ['2'], []⟩ / 100.0)) := by
  refine (Formula.parse_iff_exists_phrase ?_ _).mpr ?_
  · decide
  · exact ⟨.sample, by decide, rfl⟩

/-- Two levels of operands are room enough for the sample. -/
theorem Tree.parse_sample :
    Tree.parse 2 "（1 + x） * 2%".toList = .ok (Phrase.sample.tree "(1 + x) * 2%".toList 0) := by
  have hascii : Bracket.ascii "（1 + x） * 2%".toList = "(1 + x) * 2%".toList := by decide
  rw [Tree.parse_eq_ok_iff, hascii]
  exact ⟨.sample, by decide, by decide, rfl⟩

theorem Formula.exists_parse_sample : ∃ f, Formula.parse 2 "（1 + x） * 2%".toList = .ok f :=
  ⟨⟨_, _, Dict.empty⟩, Formula.parse_eq_ok_iff.mpr ⟨Tree.parse_sample, rfl, rfl⟩⟩

/-- One character is a name, if it stands for nothing else. -/
theorem IsName.singleton {c : Char}
    (h : (isLayout c || Literal.isDelimiter c || c == '%' || c.isDigit || c == '.') = false) :
    IsName [c] := by
  simp only [Bool.or_eq_false_iff, beq_eq_false_iff_ne] at h
  obtain ⟨⟨⟨⟨hlayout, hdelimiter⟩, hpercent⟩, hdigit⟩, hpoint⟩ := h
  refine ⟨List.cons_ne_nil _ _, List.forall_mem_singleton.mpr hlayout,
    List.forall_mem_singleton.mpr hdelimiter, ?_, ?_⟩
  · simpa using Ne.symm hpercent
  · simp [hdigit, hpoint]

/-- The phrase `a+a+a`. -/
def Phrase.threeAddends : Phrase .content :=
  let a : Leaf := .name ['a'] (.singleton rfl)
  let two : Phrase (.operation .add) :=
    .operation .add (.leaf a rfl) .none .none (.leaf a rfl) (by decide) (by decide)
  let three : Phrase (.operation .add) :=
    .operation .add two .none .none (.leaf a rfl) (by decide) (by decide)
  .compound .none three .none (by decide) (by decide)

/-- Three addends need no level but that of their own operands. -/
theorem Tree.parse_threeAddends :
    Tree.parse 1 "a+a+a".toList = .ok (Phrase.threeAddends.tree "a+a+a".toList 0) := by
  have hascii : Bracket.ascii "a+a+a".toList = "a+a+a".toList := by decide
  rw [Tree.parse_eq_ok_iff, hascii]
  exact ⟨.threeAddends, by decide, by decide, rfl⟩

end InfixFormula

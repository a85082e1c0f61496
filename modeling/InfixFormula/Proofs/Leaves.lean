import InfixFormula.Piece

/-!
# Leaves and their texts

A leaf is a number, a percentage or a name.  Here it is data: a decimal with its digits, or the
characters of a name, together with what makes it one.  `Leaf.text` writes a leaf, and the recognizers of
literals and names accept exactly what is written so: `number?_eq_some_iff` and `percentage?_eq_some_iff`
for literals, `value?_text` and `exists_leaf_of_piece` for leaves as a whole.

A leaf is signed if a minus sign stands in front of its number.  No other operator and no bracket occurs
in a leaf, and no layout.
-/

namespace InfixFormula

namespace Decimal

/-- Digits, and behind a point further digits if there are any. -/
def magnitudeText (d : Decimal) : Text :=
  match d.fraction with
  | [] => d.whole
  | c :: digits => d.whole ++ '.' :: c :: digits

/-- The decimal as it is written. -/
def text (d : Decimal) : Text :=
  if d.negative then '-' :: d.magnitudeText else d.magnitudeText

/-- There are digits on one side of the point at least, and nothing but digits. -/
structure IsNumber (d : Decimal) : Prop where
  whole : ∀ c ∈ d.whole, c.isDigit = true
  fraction : ∀ c ∈ d.fraction, c.isDigit = true
  digits : d.whole ≠ [] ∨ d.fraction ≠ []

/-- There are digits in front of the point. -/
structure IsPercentage (d : Decimal) : Prop extends IsNumber d where
  whole_ne_nil : d.whole ≠ []

/-- Numbers are written in digits and a point. -/
theorem mem_magnitudeText {d : Decimal} (hd : d.IsNumber) {c : Char} (hc : c ∈ d.magnitudeText) :
    c.isDigit = true ∨ c = '.' := by
  have hmem : c ∈ d.whole ∨ c = '.' ∨ c ∈ d.fraction := by
    unfold magnitudeText at hc
    split at hc
    · exact .inl hc
    · next e digits he =>
        rw [he]
        simpa using hc
  rcases hmem with hmem | hmem | hmem
  · exact .inl (hd.whole c hmem)
  · exact .inr hmem
  · exact .inl (hd.fraction c hmem)

/-- A number has a digit at least. -/
theorem magnitudeText_ne_nil {d : Decimal} (hd : d.IsNumber) : d.magnitudeText ≠ [] := by
  unfold magnitudeText
  split
  · next he => exact hd.digits.resolve_right (fun hne => hne he)
  · simp

end Decimal

namespace Literal

/-- Numbers without a sign are read back from their texts, and only from those. -/
theorem unsigned?_eq_some_iff {negative : Bool} {t : Text} {d : Decimal} :
    unsigned? negative t = some d ↔ d.negative = negative ∧ d.IsNumber ∧ t = d.magnitudeText := by
  constructor
  · intro h
    have hsplit : t.takeWhile Char.isDigit ++ t.dropWhile Char.isDigit = t :=
      List.takeWhile_append_dropWhile
    have hdigits : ∀ c ∈ t.takeWhile Char.isDigit, c.isDigit = true := by
      intro c hc
      exact List.all_eq_true.mp (List.all_takeWhile (p := Char.isDigit)) c hc
    unfold unsigned? at h
    split at h
    · next hdrop =>
        dsimp only at h
        split at h
        · cases h
        · next hne =>
            cases h
            rw [hdrop, List.append_nil] at hsplit
            refine ⟨rfl, ⟨hdigits, by simp, .inl ?_⟩, hsplit.symm⟩
            simpa using hne
    · next fraction hdrop =>
        dsimp only at h
        split at h
        · cases h
        · next hfraction =>
            cases h
            simp only [Bool.or_eq_true, List.isEmpty_iff, Bool.not_eq_true', not_or,
              Bool.not_eq_false, List.all_eq_true] at hfraction
            refine ⟨rfl, ⟨hdigits, hfraction.2, .inr hfraction.1⟩, ?_⟩
            rw [hdrop] at hsplit
            cases fraction with
            | nil => exact absurd rfl hfraction.1
            | cons c fraction => exact hsplit.symm
    · cases h
  · rintro ⟨rfl, hd, rfl⟩
    obtain ⟨negative, whole, fraction⟩ := d
    have hwhole := hd.whole
    simp only at hwhole
    cases fraction with
    | nil =>
        have hne : whole ≠ [] := hd.digits.resolve_right (fun hne => hne rfl)
        have htake : (whole ++ []).takeWhile Char.isDigit = whole ++ [].takeWhile Char.isDigit :=
          List.takeWhile_append_of_pos hwhole
        have hdrop : (whole ++ []).dropWhile Char.isDigit = [].dropWhile Char.isDigit :=
          List.dropWhile_append_of_pos hwhole
        rw [List.append_nil] at htake hdrop
        simp [unsigned?, Decimal.magnitudeText, htake, hdrop, hne]
    | cons c fraction =>
        have htake : (whole ++ '.' :: c :: fraction).takeWhile Char.isDigit = whole := by
          rw [List.takeWhile_append_of_pos hwhole]
          simp
        have hdrop : (whole ++ '.' :: c :: fraction).dropWhile Char.isDigit = '.' :: c :: fraction := by
          rw [List.dropWhile_append_of_pos hwhole]
          rfl
        have hfraction : (c :: fraction).all Char.isDigit = true :=
          List.all_eq_true.mpr hd.fraction
        simp only [unsigned?, Decimal.magnitudeText, htake, hdrop]
        simp [hfraction]

/-- What the reading of numbers accepts is what decimals are written as. -/
theorem number?_eq_some_iff {t : Text} {d : Decimal} :
    number? t = some d ↔ d.IsNumber ∧ t = d.text := by
  have hsign : ∀ u : Text, number? ('-' :: u) = unsigned? true u := fun _ => rfl
  constructor
  · intro h
    unfold number? at h
    split at h
    · obtain ⟨hnegative, hd, rfl⟩ := unsigned?_eq_some_iff.mp h
      exact ⟨hd, by simp [Decimal.text, hnegative]⟩
    · obtain ⟨hnegative, hd, rfl⟩ := unsigned?_eq_some_iff.mp h
      exact ⟨hd, by simp [Decimal.text, hnegative]⟩
  · rintro ⟨hd, rfl⟩
    cases hnegative : d.negative with
    | true =>
        simp only [Decimal.text, hnegative, if_true]
        rw [hsign]
        exact unsigned?_eq_some_iff.mpr ⟨hnegative, hd, rfl⟩
    | false =>
        simp only [Decimal.text, hnegative]
        have hhead : ∀ u, d.magnitudeText ≠ '-' :: u := by
          intro u hu
          have hminus : '-' ∈ d.magnitudeText := by simp [hu]
          rcases Decimal.mem_magnitudeText hd hminus with hdigit | hpoint
          · cases hdigit
          · cases hpoint
        unfold number?
        split
        · next u hu => exact absurd hu (hhead u)
        · exact unsigned?_eq_some_iff.mpr ⟨hnegative, hd, rfl⟩

/-- A percentage is a number with digits in front of any point, and the sign behind it. -/
theorem percentage?_eq_some_iff {t : Text} {d : Decimal} :
    percentage? t = some d ↔ d.IsPercentage ∧ t = d.text ++ ['%'] := by
  constructor
  · intro h
    unfold percentage? at h
    split at h
    · next u hu =>
        split at h
        · next e he =>
            split at h
            · cases h
            · next hne =>
                cases h
                obtain ⟨hd, htext⟩ := number?_eq_some_iff.mp he
                refine ⟨⟨hd, by simpa using hne⟩, ?_⟩
                rw [← htext, ← List.reverse_cons, ← hu, List.reverse_reverse]
        · cases h
    · cases h
  · rintro ⟨hd, rfl⟩
    have hnumber : number? d.text = some d := number?_eq_some_iff.mpr ⟨hd.toIsNumber, rfl⟩
    have hwhole : d.whole.isEmpty = false := by simpa using hd.whole_ne_nil
    simp [percentage?, hnumber, hwhole]

end Literal

/-- The characters of a name: no layout, no brackets, operators and percent signs, and more than digits
and points. -/
structure IsName (n : Text) : Prop where
  ne_nil : n ≠ []
  layout : ∀ c ∈ n, isLayout c = false
  delimiter : ∀ c ∈ n, Literal.isDelimiter c = false
  percent : '%' ∉ n
  other : ¬ ∀ c ∈ n, c.isDigit = true ∨ c = '.'

/-- A text without brackets and operators between operands. -/
inductive Leaf where
  | number (d : Decimal) (hd : d.IsNumber)
  | percentage (d : Decimal) (hd : d.IsPercentage)
  | name (n : Text) (hn : IsName n)

namespace Leaf

def text : Leaf → Text
  | number d _ => d.text
  | percentage d _ => d.text ++ ['%']
  | name n _ => n

/-- Whether a minus sign stands in front. -/
def isSigned : Leaf → Bool
  | number d _ => d.negative
  | percentage d _ => d.negative
  | name _ _ => false

/-- The text behind the sign. -/
def body : Leaf → Text
  | number d _ => d.magnitudeText
  | percentage d _ => d.magnitudeText ++ ['%']
  | name n _ => n

/-- The value of a literal. -/
def value? : Leaf → Option Float
  | number d _ => some d.toFloat
  | percentage d _ => some (d.toFloat / 100.0)
  | name _ _ => none

/-- The tree of the leaf, cut from `source`. -/
def tree (source : Source) : Leaf → Tree
  | number d _ => .const d.toFloat source
  | percentage d _ => .const (d.toFloat / 100.0) source
  | name n _ => .var n

/-- A leaf is its body, behind its sign if it has one. -/
theorem text_eq (l : Leaf) : l.text = if l.isSigned then '-' :: l.body else l.body := by
  cases l with
  | number d hd => rfl
  | percentage d hd =>
      by_cases hsign : d.negative = true
      · simp [text, isSigned, body, Decimal.text, hsign]
      · simp [text, isSigned, body, Decimal.text, hsign]
  | name n hn => rfl

/-- No character of a body is layout, a bracket or an operator. -/
theorem mem_body {l : Leaf} {c : Char} (hc : c ∈ l.body) :
    isLayout c = false ∧ Literal.isDelimiter c = false := by
  have hmagnitude : ∀ d : Decimal, d.IsNumber → c ∈ d.magnitudeText →
      isLayout c = false ∧ Literal.isDelimiter c = false := by
    intro d hd hmem
    rcases Decimal.mem_magnitudeText hd hmem with hdigit | rfl
    · simp only [Char.isDigit, Bool.and_eq_true, decide_eq_true_eq, ge_iff_le,
        UInt32.le_iff_toNat_le] at hdigit
      have hlow : 48 ≤ c.toNat := hdigit.1
      have hhigh : c.toNat ≤ 57 := hdigit.2
      have hne : ∀ e : Char, e.toNat < 48 → (c == e) = false := by
        intro e he
        rw [beq_eq_false_iff_ne]
        rintro rfl
        omega
      constructor
      · simp only [isLayout]
        simp
        omega
      · simp [Literal.isDelimiter, hne]
    · exact ⟨rfl, rfl⟩
  cases l with
  | number d hd => exact hmagnitude d hd hc
  | percentage d hd =>
      rcases List.mem_append.mp hc with hc | hc
      · exact hmagnitude d hd.toIsNumber hc
      · obtain rfl : c = '%' := by simpa using hc
        exact ⟨rfl, rfl⟩
  | name n hn => exact ⟨hn.layout c hc, hn.delimiter c hc⟩

theorem body_ne_nil (l : Leaf) : l.body ≠ [] := by
  cases l with
  | number d hd => exact Decimal.magnitudeText_ne_nil hd
  | percentage d hd => simp [body]
  | name n hn => exact hn.ne_nil

theorem not_isLayout {l : Leaf} {c : Char} (hc : c ∈ l.text) : isLayout c = false := by
  rw [text_eq] at hc
  split at hc
  · rcases List.mem_cons.mp hc with rfl | hc
    · rfl
    · exact (mem_body hc).1
  · exact (mem_body hc).1

/-- Every leaf has a text. -/
theorem text_ne_nil (l : Leaf) : l.text ≠ [] := by
  rw [text_eq]
  split
  · exact List.cons_ne_nil _ _
  · exact l.body_ne_nil

/-- No layout stands at either end of a leaf. -/
theorem isTight_text (l : Leaf) : l.text.IsTight where
  ne_nil := l.text_ne_nil
  head := fun _ hc => not_isLayout (List.mem_of_mem_head? hc)
  last := fun _ hc => not_isLayout (List.mem_of_mem_getLast? hc)

theorem any_isDelimiter_body (l : Leaf) : l.body.any Literal.isDelimiter = false :=
  List.any_eq_false.mpr (fun _ hc => by simp [(mem_body hc).2])

/-- The only delimiter in a leaf is its sign. -/
theorem any_isDelimiter_text (l : Leaf) : l.text.any Literal.isDelimiter = l.isSigned := by
  rw [text_eq]
  split
  · next hsigned => simp [hsigned, Literal.isDelimiter]
  · next hsigned => simpa [any_isDelimiter_body] using hsigned

/-- The text of a leaf is read as its value, and the text of a name as none. -/
theorem value?_text (l : Leaf) : Literal.value? l.text = l.value? := by
  cases l with
  | number d hd =>
      have hnumber : Literal.number? d.text = some d := Literal.number?_eq_some_iff.mpr ⟨hd, rfl⟩
      simp [Literal.value?, Literal.numberValue?, text, value?, hnumber]
  | percentage d hd =>
      have hnumber : Literal.number? (d.text ++ ['%']) = none := by
        rw [Option.eq_none_iff_forall_ne_some]
        intro e he
        obtain ⟨hnumber, htext⟩ := Literal.number?_eq_some_iff.mp he
        have hmem : '%' ∈ (number e hnumber).text := by
          rw [text, ← htext]
          simp
        rw [text_eq] at hmem
        have hbody : '%' ∈ e.magnitudeText := by
          split at hmem
          · simpa [body] using hmem
          · exact hmem
        rcases Decimal.mem_magnitudeText hnumber hbody with hdigit | hpoint
        · cases hdigit
        · cases hpoint
      have hpercentage : Literal.percentage? (d.text ++ ['%']) = some d :=
        Literal.percentage?_eq_some_iff.mpr ⟨hd, rfl⟩
      simp [Literal.value?, Literal.numberValue?, Literal.percentageValue?, text, value?, hnumber,
        hpercentage]
  | name n hn =>
      have hnumber : Literal.number? n = none := by
        rw [Option.eq_none_iff_forall_ne_some]
        intro d hd
        obtain ⟨hnumber, htext⟩ := Literal.number?_eq_some_iff.mp hd
        have hsign : (number d hnumber).isSigned = false := by
          rw [← any_isDelimiter_text, text, ← htext]
          exact any_isDelimiter_text (name n hn)
        apply hn.other
        intro c hc
        rw [htext, Decimal.text, show d.negative = false from hsign] at hc
        exact Decimal.mem_magnitudeText hnumber hc
      have hpercentage : Literal.percentage? n = none := by
        rw [Option.eq_none_iff_forall_ne_some]
        intro d hd
        obtain ⟨-, htext⟩ := Literal.percentage?_eq_some_iff.mp hd
        apply hn.percent
        rw [htext]
        simp
      simp [Literal.value?, Literal.numberValue?, Literal.percentageValue?, text, value?, hnumber,
        hpercentage]

/-- What is read as a value is the text of a leaf. -/
theorem exists_of_value? {t : Text} {x : Float} (h : Literal.value? t = some x) :
    ∃ l : Leaf, l.text = t ∧ l.value? = some x := by
  unfold Literal.value? Literal.numberValue? Literal.percentageValue? at h
  cases hnumber : Literal.number? t with
  | some d =>
      obtain ⟨hd, rfl⟩ := Literal.number?_eq_some_iff.mp hnumber
      obtain rfl : d.toFloat = x := by simpa [hnumber] using h
      exact ⟨number d hd, rfl, rfl⟩
  | none =>
      cases hpercentage : Literal.percentage? t with
      | some d =>
          obtain ⟨hd, rfl⟩ := Literal.percentage?_eq_some_iff.mp hpercentage
          obtain rfl : d.toFloat / 100.0 = x := by simpa [hnumber, hpercentage] using h
          exact ⟨percentage d hd, rfl, rfl⟩
      | none => simp [hnumber, hpercentage] at h

end Leaf

/-- Names are the tokens that are not rejected. -/
theorem Literal.rejection_eq_none_iff {t : Text} (ht : t ≠ [])
    (hdelimiter : t.any Literal.isDelimiter = false) : Literal.rejection t = none ↔ IsName t := by
  have hany : t.any isLayout = false ↔ ∀ c ∈ t, isLayout c = false := by simp
  unfold Literal.rejection
  constructor
  · intro h
    split at h
    · cases h
    · next hlayout =>
        split at h
        · cases h
        · next hnumeric =>
            split at h
            · cases h
            · next hpercent =>
                refine ⟨ht, hany.mp (by simpa using hlayout), by simpa using hdelimiter,
                  by simpa using hpercent, ?_⟩
                simpa [ht] using hnumeric
  · intro h
    rw [if_neg (by rw [hany.mpr h.layout]; simp), if_neg, if_neg]
    · simpa using h.percent
    · have hother := h.other
      simpa [ht] using hother

/-- A literal has the tree of its value. -/
theorem Leaf.tree_of_value? {l : Leaf} {x : Float} (h : l.value? = some x) (source : Source) :
    l.tree source = .const x source := by
  cases l <;> cases h <;> rfl

/-- The operand that the leaf is at a position of the buffer. -/
def Leaf.operand (buffer : Text) (position : Nat) (l : Leaf) : Operand :=
  let span : Span := ⟨position, position + l.text.length⟩
  ⟨l.tree ⟨buffer, span⟩, span⟩

/-- The core of a text is what stands between its layout. -/
theorem Text.coreSpan_between {w t w' : Text} (hw : w.isBlank = true) (ht : t.IsTight)
    (hw' : w'.isBlank = true) (start : Nat) :
    (w ++ t ++ w').coreSpan start = ⟨start + w.length, start + w.length + t.length⟩ := by
  rw [Text.coreSpan, Text.margin_between hw ht, Text.trim_between hw ht hw']

namespace Reader

variable {r : Reader} {depth start : Nat}

/-- A leaf between layout is recognized. -/
theorem piece_between (hdepth : depth ≤ r.limit) {w w' : Text} (hw : w.isBlank = true) (l : Leaf)
    (hw' : w'.isBlank = true) :
    r.piece depth start (w ++ l.text ++ w') = .ok (.leaf (l.operand r.buffer (start + w.length))) := by
  rw [piece_eq_leaf_iff, Text.trim_between hw l.isTight_text hw',
    Text.coreSpan_between hw l.isTight_text hw', Leaf.value?_text]
  refine ⟨hdepth, Text.isBlank_between hw l.isTight_text hw', rfl, ?_⟩
  cases hvalue : l.value? with
  | some x => exact .inl ⟨x, rfl, Leaf.tree_of_value? hvalue _⟩
  | none =>
      cases l with
      | number d hd => cases hvalue
      | percentage d hd => cases hvalue
      | name n hn =>
          have hdelimiter := (Leaf.name n hn).any_isDelimiter_text
          refine .inr ⟨rfl, hdelimiter, ?_, rfl⟩
          exact (Literal.rejection_eq_none_iff hn.ne_nil hdelimiter).mpr hn

/-- Only a leaf between layout is recognized as one. -/
theorem exists_leaf_of_piece {t : Text} {o : Operand} (h : r.piece depth start t = .ok (.leaf o)) :
    ∃ (w : Text) (l : Leaf) (w' : Text), w.isBlank = true ∧ w'.isBlank = true ∧
      t = w ++ l.text ++ w' ∧ o = l.operand r.buffer (start + w.length) := by
  obtain ⟨-, hblank, hspan, htree⟩ := piece_eq_leaf_iff.mp h
  obtain ⟨w', hw', hsplit⟩ := t.exists_eq_margin_trim
  have hleaf : ∃ l : Leaf, l.text = t.trim ∧ o.tree = l.tree ⟨r.buffer, t.coreSpan start⟩ := by
    rcases htree with ⟨x, hvalue, htree⟩ | ⟨-, hdelimiter, hrejection, htree⟩
    · obtain ⟨l, hl, hx⟩ := Leaf.exists_of_value? hvalue
      exact ⟨l, hl, htree.trans (Leaf.tree_of_value? hx _).symm⟩
    · have hn := (Literal.rejection_eq_none_iff (Text.isTight_trim hblank).ne_nil hdelimiter).mp
        hrejection
      exact ⟨.name _ hn, rfl, htree⟩
  obtain ⟨l, hl, htree⟩ := hleaf
  refine ⟨t.margin, l, w', t.isBlank_margin, hw', by rw [hl]; exact hsplit, ?_⟩
  obtain ⟨tree, span⟩ := o
  simp only at hspan htree
  rw [hspan, htree, Leaf.operand, Text.coreSpan, hl]

end Reader

end InfixFormula

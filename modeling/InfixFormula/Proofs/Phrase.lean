import InfixFormula.Proofs.Brackets
import InfixFormula.Proofs.Leaves

/-!
# The grammar of formulas

A phrase is a derivation in the grammar of formulas, as data.  Its kind says what it is at the outside:

* a *leaf* is a literal without a sign, or a name;
* a *pair* is a content between brackets;
* an *operation* is an operator between two phrases, with layout around the operator.  Its left operand
  binds at least as tightly as the operator and its right operand more tightly, so multiplication and
  division go before addition and subtraction, and neighbours of one strength group to the left;
* a *content* is the whole text or the inside of a bracket pair.  Between layout it is a sole leaf, which
  may have a sign, or a pair or an operation.

A phrase has a text, a nesting, which is the deepest level that reading it comes to, and an outline,
which is its tree without the texts that the nodes were read from.  Standing in a buffer it has a tree
with them.
-/

namespace InfixFormula

/-- A blank text. -/
structure Layout where
  text : Text
  blank : text.isBlank = true

/-- No layout at all. -/
def Layout.none : Layout := ⟨[], rfl⟩

/-- Layout followed by layout. -/
def Layout.append (u v : Layout) : Layout :=
  ⟨u.text ++ v.text, by rw [Text.isBlank_append, u.blank, v.blank]; rfl⟩

/-- How loosely the operator binds its operands. -/
def Operator.looseness : Operator → Nat
  | multiply | divide => 1
  | add | subtract => 2

/-- What a phrase is at the outside. -/
inductive Kind where
  | leaf
  | pair
  | operation (op : Operator)
  | content
  deriving DecidableEq

/-- How loosely a phrase of the kind holds together. -/
def Kind.looseness : Kind → Nat
  | leaf | pair => 0
  | operation op => op.looseness
  | content => 3

theorem Kind.ne_content_of_le {k : Kind} {op : Operator} (h : k.looseness ≤ op.looseness) :
    k ≠ .content := by
  rintro rfl
  cases op <;> simp [looseness, Operator.looseness] at h

/-- A derivation of the kind. -/
inductive Phrase : Kind → Type where
  | leaf (l : Leaf) (hl : l.isSigned = false) : Phrase .leaf
  | pair (inside : Phrase .content) : Phrase .pair
  | operation {j k : Kind} (op : Operator) (left : Phrase j) (before after : Layout)
      (right : Phrase k) (hleft : j.looseness ≤ op.looseness) (hright : k.looseness < op.looseness) :
      Phrase (.operation op)
  | sole (before : Layout) (l : Leaf) (after : Layout) : Phrase .content
  | compound {k : Kind} (before : Layout) (inner : Phrase k) (after : Layout) (hleaf : k ≠ .leaf)
      (hcontent : k ≠ .content) : Phrase .content

/-- A tree without the texts that its nodes were read from. -/
inductive Outline where
  | const (value : Float)
  | var (name : Text)
  | binary (op : Operator) (left right : Outline)

/-- The tree without its sources. -/
def Tree.outline : Tree → Outline
  | const x _ => .const x
  | var name => .var name
  | binary op l r _ => .binary op l.outline r.outline

/-- A literal counts as its value, a name as a variable. -/
def Leaf.outline : Leaf → Outline
  | number d _ => .const d.toFloat
  | percentage d _ => .const (d.toFloat / 100.0)
  | name n _ => .var n

namespace Phrase

/-- The characters of the phrase. -/
def text : {k : Kind} → Phrase k → Text
  | _, leaf l _ => l.text
  | _, pair inside => '(' :: (inside.text ++ [')'])
  | _, operation op left before after right _ _ =>
      left.text ++ before.text ++ op.symbol :: (after.text ++ right.text)
  | _, sole before l after => before.text ++ l.text ++ after.text
  | _, compound before inner after _ _ => before.text ++ inner.text ++ after.text

/-- How many levels lie below the phrase: one for the operands of a compound content, and the same
again for every content between brackets. -/
def nesting : {k : Kind} → Phrase k → Nat
  | _, leaf _ _ => 0
  | _, pair inside => inside.nesting
  | _, operation _ left _ _ right _ _ => max left.nesting right.nesting
  | _, sole _ _ _ => 0
  | _, compound _ inner _ _ _ => inner.nesting + 1

/-- What the phrase means.  Brackets and layout mean nothing. -/
def outline : {k : Kind} → Phrase k → Outline
  | _, leaf l _ => l.outline
  | _, pair inside => inside.outline
  | _, operation op left _ _ right _ _ => .binary op left.outline right.outline
  | _, sole _ l _ => l.outline
  | _, compound _ inner _ _ _ => inner.outline

/-- Where the right operand of an operation starts. -/
def rightStart {j : Kind} (left : Phrase j) (before after : Layout) (start : Nat) : Nat :=
  start + left.text.length + before.text.length + 1 + after.text.length

/-- The span of a phrase that starts at the position. -/
def span {k : Kind} (p : Phrase k) (start : Nat) : Span := ⟨start, start + p.text.length⟩

/-- The tree of a phrase that starts at the position of the buffer. -/
def tree (buffer : Text) : {k : Kind} → Phrase k → Nat → Tree
  | _, leaf l _, start => (l.operand buffer start).tree
  | _, pair inside, start => inside.tree buffer (start + 1)
  | _, operation op left before after right hleft hright, start =>
      .binary op (left.tree buffer start) (right.tree buffer (left.rightStart before after start))
        ⟨buffer, (operation op left before after right hleft hright).span start⟩
  | _, sole before l _, start => (l.operand buffer (start + before.text.length)).tree
  | _, compound before inner _ _ _, start => inner.tree buffer (start + before.text.length)

/-- The tree and span of a phrase that starts at the position of the buffer. -/
def operand {k : Kind} (buffer : Text) (p : Phrase k) (start : Nat) : Operand :=
  ⟨p.tree buffer start, p.span start⟩

/-- A pair adds its two brackets. -/
theorem length_text_pair (inside : Phrase .content) :
    inside.pair.text.length = inside.text.length + 2 := by
  simp [text]

theorem length_text_operation {j k : Kind} (op : Operator) (left : Phrase j) (before after : Layout)
    (right : Phrase k) (hleft : j.looseness ≤ op.looseness) (hright : k.looseness < op.looseness) :
    (operation op left before after right hleft hright).text.length =
      left.text.length + before.text.length + 1 + after.text.length + right.text.length := by
  simp only [text, List.length_append, List.length_cons]
  omega

/-- An operation stops where its right operand stops. -/
theorem rightStart_add_length {j k : Kind} (op : Operator) (left : Phrase j)
    (before after : Layout) (right : Phrase k) (hleft : j.looseness ≤ op.looseness)
    (hright : k.looseness < op.looseness) (start : Nat) :
    left.rightStart before after start + right.text.length =
      start + (operation op left before after right hleft hright).text.length := by
  rw [length_text_operation, rightStart]
  omega

/-- The tree of a phrase means what the phrase does, wherever it stands. -/
theorem outline_tree {k : Kind} (p : Phrase k) (buffer : Text) (start : Nat) :
    (p.tree buffer start).outline = p.outline := by
  have hleaf : ∀ (l : Leaf) (source : Source), (l.tree source).outline = l.outline := by
    intro l source
    cases l <;> rfl
  induction p generalizing start with
  | leaf l hl => exact hleaf l _
  | pair inside ih => exact ih _
  | operation op left before after right hleft hright ihl ihr =>
      rw [tree, Tree.outline, ihl, ihr, outline]
  | sole before l after => exact hleaf l _
  | compound before inner after hkind hcontent ih => exact ih _

/-- No leaf holds a bracket. -/
theorem isFlat_leaf (l : Leaf) : Bracket.isFlat l.text = true := by
  have hflat : ∀ c ∈ l.body, Bracket.isBracket c = false :=
    fun c hc => Bracket.isBracket_of_isDelimiter (Leaf.mem_body hc).2
  rw [Bracket.isFlat, List.all_eq_true]
  intro c hc
  rw [Leaf.text_eq] at hc
  split at hc
  · rcases List.mem_cons.mp hc with rfl | hc
    · rfl
    · simp [hflat c hc]
  · simp [hflat c hc]

/-- The brackets of a phrase are paired among themselves. -/
theorem isBalanced_text {k : Kind} (p : Phrase k) : Bracket.isBalanced 0 p.text = true := by
  have hleaf : ∀ l : Leaf, Bracket.isBalanced 0 l.text = true :=
    fun l => Bracket.isBalanced_of_isFlat (isFlat_leaf l)
  have hlayout : ∀ w : Layout, Bracket.isBalanced 0 w.text = true :=
    fun w => Bracket.isBalanced_of_isBlank w.blank
  have hbetween : ∀ (w w' : Layout) {t : Text}, Bracket.isBalanced 0 t = true →
      Bracket.isBalanced 0 (w.text ++ t ++ w'.text) = true := by
    intro w w' t ht
    rw [List.append_assoc, Bracket.isBalanced_balanced_append (hlayout w),
      Bracket.isBalanced_balanced_append ht, hlayout w']
  induction p with
  | leaf l hl => exact hleaf l
  | pair inside ih =>
      rw [text, Bracket.isBalanced_opening]
      simpa using Bracket.isBalanced_append ih 1 [')']
  | operation op left before after right hleft hright ihl ihr =>
      have hop : Bracket.isBracket op.symbol = false := by cases op <;> rfl
      rw [text, List.append_assoc, Bracket.isBalanced_balanced_append ihl,
        Bracket.isBalanced_balanced_append (hlayout before), Bracket.isBalanced_other _ _ hop,
        Bracket.isBalanced_balanced_append (hlayout after), ihr]
  | sole before l after => exact hbetween before after (hleaf l)
  | compound before inner after hkind hcontent ih => exact hbetween before after ih

/-- A phrase that is no content has no layout at its ends. -/
theorem isTight_text {k : Kind} (p : Phrase k) (hk : k ≠ .content) : p.text.IsTight := by
  induction p with
  | leaf l hl => exact l.isTight_text
  | pair inside ih =>
      refine ⟨by simp [text], ?_, ?_⟩
      · intro c hc
        obtain rfl : '(' = c := by simpa [text] using hc
        rfl
      · intro c hc
        have hlast : (pair inside).text.getLast? = some ')' :=
          List.getLast?_concat (l := '(' :: inside.text)
        obtain rfl : ')' = c := Option.some.inj (hlast.symm.trans hc)
        rfl
  | operation op left before after right hleft hright ihl ihr =>
      have hjoin := (ihl (Kind.ne_content_of_le hleft)).append
        (before.text ++ op.symbol :: after.text) (ihr (Kind.ne_content_of_le (Nat.le_of_lt hright)))
      simpa [text] using hjoin
  | sole before l after => exact absurd rfl hk
  | compound before inner after hkind hcontent ih => exact absurd rfl hk

/-- Only a sole leaf can start with a minus sign. -/
theorem head_text_ne_minus {k : Kind} (p : Phrase k) (hk : k ≠ .content) (u : Text) :
    p.text ≠ '-' :: u := by
  induction p generalizing u with
  | leaf l hl =>
      intro h
      have hdelimiter := l.any_isDelimiter_text
      rw [hl, show l.text = '-' :: u from h] at hdelimiter
      cases hdelimiter
  | pair inside ih => simp [text]
  | operation op left before after right hleft hright ihl ihr =>
      have hkind := Kind.ne_content_of_le hleft
      cases hs : left.text with
      | nil => exact absurd hs (left.isTight_text hkind).ne_nil
      | cons c v =>
          intro h
          simp only [text, hs, List.cons_append, List.cons.injEq] at h
          exact ihl hkind v (by rw [hs, h.1])
  | sole before l after => exact absurd rfl hk
  | compound before inner after hkind hcontent ih => exact absurd rfl hk

/-- What is no leaf has brackets or operators. -/
theorem any_isDelimiter_text {k : Kind} (p : Phrase k) (hleaf : k ≠ .leaf) (hk : k ≠ .content) :
    p.text.any Literal.isDelimiter = true := by
  cases p with
  | leaf l hl => exact absurd rfl hleaf
  | pair inside => simp [text, Literal.isDelimiter]
  | operation op left before after right hleft hright => simp [text, Literal.isDelimiter_symbol]
  | sole before l after => exact absurd rfl hk
  | compound before inner after hkind hcontent => exact absurd rfl hk

/-- What is no leaf is no literal. -/
theorem value?_text {k : Kind} (p : Phrase k) (hleaf : k ≠ .leaf) (hk : k ≠ .content) :
    Literal.value? p.text = none := by
  rw [Option.eq_none_iff_forall_ne_some]
  intro x hx
  obtain ⟨l, hl, -⟩ := Leaf.exists_of_value? hx
  have hsigned : l.isSigned = true := by
    rw [← l.any_isDelimiter_text, hl, p.any_isDelimiter_text hleaf hk]
  rw [Leaf.text_eq, if_pos hsigned] at hl
  exact p.head_text_ne_minus hk l.body hl.symm

/-- A text has no fewer characters than levels. -/
theorem nesting_le_length {k : Kind} (p : Phrase k) :
    p.nesting ≤ p.text.length ∧ (k ≠ .content → p.nesting < p.text.length) := by
  induction p with
  | leaf l hl =>
      have hpos : 0 < l.text.length := List.length_pos_iff.mpr l.text_ne_nil
      exact ⟨Nat.zero_le _, fun _ => hpos⟩
  | pair inside ih =>
      rw [length_text_pair, nesting]
      omega
  | operation op left before after right hleft hright ihl ihr =>
      have hl := ihl.2 (Kind.ne_content_of_le hleft)
      have hr := ihr.2 (Kind.ne_content_of_le (Nat.le_of_lt hright))
      rw [length_text_operation, nesting]
      omega
  | sole before l after => exact ⟨Nat.zero_le _, fun h => absurd rfl h⟩
  | compound before inner after hkind hcontent ih =>
      have hinner := ih.2 hcontent
      refine ⟨?_, fun h => absurd rfl h⟩
      simp only [nesting, text, List.length_append]
      omega

end Phrase

end InfixFormula

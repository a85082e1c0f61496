import InfixFormula.Proofs.Grammar
import InfixFormula.Proofs.Nodes

/-!
# Reading loses nothing

Read from left to right, the leaves and operators of a tree are the text again, but for its layout and
its brackets.  This holds for the whole tree and the whole text, and at every node for the text that the
node was read from (`Tree.Shows`).

The spans of the nodes lie in one another as the nodes do.  They count bytes of the text, and each of
their ends is the end of a character.
-/

namespace InfixFormula

/-- The characters of the text that are neither layout nor brackets. -/
def Text.ink (t : Text) : Text := t.filter (fun c => !isLayout c && !Bracket.isBracket c)

/-- The texts of the leaves and the symbols of the operators, from left to right. -/
def Tree.written : Tree → Text
  | const _ source => source.text
  | var name => name
  | binary op left right _ => left.written ++ op.symbol :: right.written

/-- Whether the one span lies in the other. -/
def Span.LiesIn (s t : Span) : Prop := t.start ≤ s.start ∧ s.stop ≤ t.stop

/-- The span of the source is right for the node: it cuts whole characters out of the buffer, and what
it cuts out is the text of the node. -/
structure Tree.Shows (node : Tree) (buffer : Text) (s : Source) : Prop where
  /-- The source is cut from the buffer. -/
  buffer_eq : s.buffer = buffer
  /-- The ends of the span are ends of characters of the buffer. -/
  cut : ∃ before after, buffer = before ++ s.text ++ after ∧
    s.byteSpan = ⟨before.utf8Length, (before ++ s.text).utf8Length⟩
  /-- There is no layout at the ends. -/
  tight : s.text.IsTight
  /-- The brackets are paired among themselves. -/
  balanced : Bracket.isBalanced 0 s.text = true
  /-- Nothing is lost, repeated or moved. -/
  written : node.written = s.text.ink
  /-- The spans of the operands lie inside, one behind the other. -/
  operands : ∀ left right, node.operands? = some (left, right) →
    (∀ l ∈ left.source?, l.byteSpan.LiesIn s.byteSpan) ∧
    (∀ r ∈ right.source?, r.byteSpan.LiesIn s.byteSpan) ∧
    ∀ l ∈ left.source?, ∀ r ∈ right.source?, l.byteSpan.stop ≤ r.byteSpan.start

namespace Text

theorem ink_append (t u : Text) : (t ++ u).ink = t.ink ++ u.ink := List.filter_append t u

/-- Layout leaves no ink. -/
theorem ink_of_isBlank {w : Text} (hw : w.isBlank = true) : w.ink = [] := by
  rw [ink, List.filter_eq_nil_iff]
  intro c hc
  have hlayout : isLayout c = true := List.all_eq_true.mp hw c hc
  simp [hlayout]

/-- The symbol of an operator is neither layout nor a bracket. -/
theorem ink_symbol (op : Operator) (t : Text) : ink (op.symbol :: t) = op.symbol :: t.ink := by
  cases op <;> rfl

/-- A leaf is all ink. -/
theorem ink_leaf (l : Leaf) : l.text.ink = l.text := by
  rw [ink, List.filter_eq_self]
  intro c hc
  have hflat := List.all_eq_true.mp (Phrase.isFlat_leaf l) c hc
  rw [Leaf.not_isLayout hc]
  simpa using hflat

/-- Positions further to the right have more bytes before them. -/
theorem utf8Length_take_mono (t : Text) {i j : Nat} (h : i ≤ j) :
    utf8Length (t.take i) ≤ utf8Length (t.take j) := by
  have hsplit : t.take j = t.take i ++ (t.drop i).take (j - i) := by
    rw [← List.take_add, Nat.add_sub_cancel' h]
  rw [hsplit, utf8Length_append]
  exact Nat.le_add_right _ _

end Text

/-- The bytes of a span lie between those before its start and those before its stop. -/
theorem Source.byteSpan_eq {s : Source} (h : s.span.start ≤ s.span.stop) :
    s.byteSpan = ⟨Text.utf8Length (s.buffer.take s.span.start),
      Text.utf8Length (s.buffer.take s.span.stop)⟩ := by
  have hsplit : s.buffer.take s.span.stop = s.buffer.take s.span.start ++ s.text := by
    rw [Source.text, Text.slice, ← List.take_add, Nat.add_sub_cancel' h]
  rw [Source.byteSpan, hsplit, Text.utf8Length_append]

/-- What is nested by characters is nested by bytes. -/
theorem Source.liesIn_byteSpan {s s' : Source} (hbuffer : s'.buffer = s.buffer)
    (hspan' : s'.span.start ≤ s'.span.stop) (hspan : s.span.start ≤ s.span.stop)
    (h : s'.span.LiesIn s.span) : s'.byteSpan.LiesIn s.byteSpan := by
  rw [Source.byteSpan_eq hspan', Source.byteSpan_eq hspan, hbuffer]
  exact ⟨Text.utf8Length_take_mono _ h.1, Text.utf8Length_take_mono _ h.2⟩

namespace Leaf

/-- A leaf that stands in the buffer is written as it stands there. -/
theorem written_tree {l : Leaf} {buffer : Text} {start : Nat} (h : buffer.OccursAt start l.text) :
    (l.operand buffer start).tree.written = l.text := by
  cases l with
  | number d hd => exact h.slice
  | percentage d hd => exact h.slice
  | name n hn => rfl

end Leaf

namespace Phrase

variable {buffer : Text} {start : Nat}

/-- The tree of a phrase has written on it what the phrase has. -/
theorem written_tree {k : Kind} (p : Phrase k) (h : buffer.OccursAt start p.text) :
    (p.tree buffer start).written = p.text.ink := by
  have hbetween : ∀ (before after : Layout) (t : Text),
      (before.text ++ t ++ after.text).ink = t.ink := by
    intro before after t
    rw [Text.ink_append, Text.ink_append, Text.ink_of_isBlank before.blank,
      Text.ink_of_isBlank after.blank, List.nil_append, List.append_nil]
  induction p generalizing start with
  | leaf l hl =>
      rw [text, Text.ink_leaf]
      exact Leaf.written_tree h
  | pair inside ih =>
      rw [tree, ih h.tail.left, text, ← List.singleton_append, Text.ink_append, Text.ink_append]
      exact (List.append_nil _).symm
  | operation op left before after right hleft hright ihl ihr =>
      rw [tree, Tree.written, ihl h.left.left, ihr (occursAt_right h), text, Text.ink_append,
        Text.ink_append, Text.ink_symbol, Text.ink_append, Text.ink_of_isBlank before.blank,
        Text.ink_of_isBlank after.blank, List.append_nil, List.nil_append]
  | sole before l after =>
      rw [text, hbetween, Text.ink_leaf]
      exact Leaf.written_tree h.left.right
  | compound before inner after hleaf hcontent ih =>
      rw [text, hbetween]
      exact ih h.left.right

/-- The operands of an operation lie in its span, one behind the other. -/
theorem operands_operation {j k : Kind} {op : Operator} {left : Phrase j} {before after : Layout}
    {right : Phrase k} (hleft : j.looseness ≤ op.looseness) (hright : k.looseness < op.looseness)
    {s : Source}
    (hs : s = ⟨buffer, (operation op left before after right hleft hright).span start⟩) :
    (∀ l ∈ (left.tree buffer start).source?, l.byteSpan.LiesIn s.byteSpan) ∧
    (∀ r ∈ (right.tree buffer (left.rightStart before after start)).source?,
      r.byteSpan.LiesIn s.byteSpan) ∧
    ∀ l ∈ (left.tree buffer start).source?,
      ∀ r ∈ (right.tree buffer (left.rightStart before after start)).source?,
        l.byteSpan.stop ≤ r.byteSpan.start := by
  have hspan : s.span.start = start ∧
      s.span.stop = left.rightStart before after start + right.text.length := by
    rw [hs, rightStart_add_length op left before after right hleft hright]
    exact ⟨rfl, rfl⟩
  have hbuffer : s.buffer = buffer := by rw [hs]
  have hbehind : start + left.text.length ≤ left.rightStart before after start := by
    rw [rightStart]
    omega
  refine ⟨?_, ?_, ?_⟩
  · intro l hl
    obtain ⟨hbuffer', hstart, hspan', hstop⟩ := left.source?_tree hl
    refine Source.liesIn_byteSpan (hbuffer'.trans hbuffer.symm) hspan' (by omega) ⟨?_, ?_⟩ <;> omega
  · intro r hr
    obtain ⟨hbuffer', hstart, hspan', hstop⟩ := right.source?_tree hr
    refine Source.liesIn_byteSpan (hbuffer'.trans hbuffer.symm) hspan' (by omega) ⟨?_, ?_⟩ <;> omega
  · intro l hl r hr
    obtain ⟨hbufferl, -, hspanl, hstop⟩ := left.source?_tree hl
    obtain ⟨hbufferr, hstart, hspanr, -⟩ := right.source?_tree hr
    rw [Source.byteSpan_eq hspanl, Source.byteSpan_eq hspanr, hbufferl, hbufferr]
    exact Text.utf8Length_take_mono _ (by omega)

/-- A bare content is what its tree shows. -/
theorem IsBare.shows {c : Phrase .content} (hc : c.IsBare) (h : buffer.OccursAt start c.text)
    {s : Source} (hs : s ∈ (c.tree buffer start).source?) :
    (c.tree buffer start).Shows buffer s := by
  obtain rfl := hc.source?_tree hs
  have htext : Source.text ⟨buffer, ⟨start, start + c.text.length⟩⟩ = c.text := h.slice
  refine ⟨rfl, ?_, ?_, ?_, ?_, ?_⟩
  · obtain ⟨before, after, hbuffer, rfl⟩ := h
    refine ⟨before, after, ?_, ?_⟩
    · rw [htext, hbuffer]
    · have htake : buffer.take before.length = before := by
        rw [hbuffer, List.append_assoc, List.take_left]
      rw [Source.byteSpan, htext, htake, Text.utf8Length_append]
  · rw [htext]
    exact hc.isTight_text
  · rw [htext]
    exact c.isBalanced_text
  · rw [htext]
    exact c.written_tree h
  · intro left right hoperands
    cases hc with
    | leaf l => cases (l.operands?_tree _).symm.trans hoperands
    | operation p hleaf hcontent =>
        cases p with
        | operation op l before after r hleft hright =>
            cases hoperands
            apply operands_operation hleft hright
            simp [text, span, Layout.none]

end Phrase

/-- **Reading loses nothing.**  The tree of a text has its ink written on it, in order, and every node
that has a source shows the part of the text that it was read from. -/
theorem Formula.written_of_parse {limit : Nat} {text : Text} {f : Formula}
    (h : Formula.parse limit text = .ok f) :
    f.tree.written = (Bracket.ascii text).ink ∧
      ∀ node ∈ f.tree.subtrees, ∀ s ∈ node.source?, node.Shows (Bracket.ascii text) s := by
  obtain ⟨c, hc, -, htree⟩ := Tree.parse_eq_ok_iff.mp (Formula.parse_eq_ok_iff.mp h).1
  have hwhole : (Bracket.ascii text).OccursAt 0 c.text := by
    rw [hc]
    exact .whole _
  rw [htree]
  constructor
  · rw [c.written_tree hwhole, hc]
  · intro node hnode s hs
    obtain ⟨b, position, hbare, hoccurs, rfl, -⟩ := c.exists_isBare_of_mem_subtrees hwhole hnode
    exact hbare.shows hoccurs hs

/-- The brackets of both styles and the blanks are gone, everything else is there in its order. -/
theorem Formula.written_of_sample :
    ∃ f, Formula.parse 2 "（1 + x） * 2%".toList = .ok f ∧ f.tree.written = "1+x*2%".toList := by
  obtain ⟨f, hf⟩ := Formula.exists_parse_sample
  exact ⟨f, hf, (Formula.written_of_parse hf).1.trans (by decide)⟩

end InfixFormula

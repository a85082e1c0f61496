import InfixFormula.Proofs.Bindings
import InfixFormula.Proofs.Grammar
import InfixFormula.Proofs.LiteralValue
import InfixFormula.Proofs.Nodes

/-!
# The source of a node reads as the node

Every node of a tree that was read can be read again from its source alone, with the same limit.  The
tree is the same as in its place: it has the same shape, the same operators and names, the same values,
bit by bit, and sources that show the same texts.

The source is the text of a bare content that stands in the buffer.  A content has the same tree
wherever it stands, but for the buffer and the positions that the sources remember
(`detached_tree`), and in a text with ASCII brackets there are no others left to turn into those.
-/

namespace InfixFormula

/-- The tree with each source on a buffer of its own, which is all that the source shows. -/
def Tree.detached : Tree → Tree
  | const x source => const x (Source.ofText source.text)
  | var name => var name
  | binary op left right source =>
      binary op left.detached right.detached (Source.ofText source.text)

/-- Whether no constant is NaN. -/
def Tree.hasValues : Tree → Bool
  | const x _ => !x.isNaN
  | var _ => true
  | binary _ left right _ => left.hasValues && right.hasValues

namespace Bracket

/-- Full-width brackets do not survive. -/
theorem ne_of_mem_ascii {t : Text} {c : Char} (hc : c ∈ ascii t) : c ≠ '（' ∧ c ≠ '）' := by
  obtain ⟨d, -, rfl⟩ := List.mem_map.mp hc
  by_cases hopen : d = '（'
  · rw [if_pos hopen]
    decide
  · rw [if_neg hopen]
    by_cases hclose : d = '）'
    · rw [if_pos hclose]
      decide
    · rw [if_neg hclose]
      exact ⟨hopen, hclose⟩

/-- What stands in a text with ASCII brackets has ASCII brackets. -/
theorem ascii_of_occursAt {t u : Text} {start : Nat} (h : (ascii t).OccursAt start u) :
    ascii u = u := by
  have hmap : u.map id = u := List.map_id u
  refine Eq.trans (List.map_congr_left ?_) hmap
  intro c hc
  obtain ⟨hopen, hclose⟩ := ne_of_mem_ascii (h.mem hc)
  rw [if_neg hopen, if_neg hclose]
  rfl

end Bracket

namespace Tree

/-- Trees without NaN that differ in the places of their sources only are the same. -/
theorem same_of_detached_eq {t u : Tree} (ht : t.hasValues = true) (h : t.detached = u.detached) :
    t.same u = true := by
  have hsource : ∀ s s' : Source, Source.ofText s.text = Source.ofText s'.text →
      s.same s' = true := by
    intro s s' hs
    exact (Source.same_iff s s').mpr (congrArg Source.buffer hs)
  induction t generalizing u with
  | const x s =>
      cases u with
      | const y s' =>
          obtain ⟨rfl, hs⟩ : x = y ∧ Source.ofText s.text = Source.ofText s'.text := by
            simpa [detached] using h
          have hx : x.isNaN = false := by simpa [hasValues] using ht
          rw [same, Double.beq_float_self hx, hsource s s' hs]
          rfl
      | var n => cases h
      | binary op l r s' => cases h
  | var n =>
      cases u with
      | const y s' => cases h
      | var n' =>
          cases h
          simp [same]
      | binary op l r s' => cases h
  | binary op l r s ihl ihr =>
      cases u with
      | const y s' => cases h
      | var n' => cases h
      | binary op' l' r' s' =>
          simp only [detached, binary.injEq] at h
          obtain ⟨rfl, hl, hr, hs⟩ := h
          rw [hasValues, Bool.and_eq_true] at ht
          simp [same, ihl ht.1 hl, ihr ht.2 hr, hsource s s' hs]

end Tree

namespace Leaf

/-- No literal is worth NaN. -/
theorem hasValues_tree (l : Leaf) (source : Source) : (l.tree source).hasValues = true := by
  cases hvalue : l.value? with
  | some x =>
      rw [Leaf.tree_of_value? hvalue, Tree.hasValues, Leaf.isNaN_value hvalue]
      rfl
  | none =>
      cases l with
      | number d hd => cases hvalue
      | percentage d hd => cases hvalue
      | name n hn => rfl

/-- On a buffer of its own, a leaf is the same wherever it was read. -/
theorem detached_tree {l : Leaf} {buffer buffer' : Text} {start start' : Nat}
    (h : buffer.OccursAt start l.text) (h' : buffer'.OccursAt start' l.text) :
    (l.operand buffer start).tree.detached = (l.operand buffer' start').tree.detached := by
  have htext : Source.text ⟨buffer, ⟨start, start + l.text.length⟩⟩ =
      Source.text ⟨buffer', ⟨start', start' + l.text.length⟩⟩ :=
    h.slice.trans h'.slice.symm
  cases l with
  | number d hd => exact congrArg (fun t => Tree.const _ (Source.ofText t)) htext
  | percentage d hd => exact congrArg (fun t => Tree.const _ (Source.ofText t)) htext
  | name n hn => rfl

end Leaf

namespace Phrase

/-- No constant of a phrase is NaN. -/
theorem hasValues_tree {k : Kind} (p : Phrase k) (buffer : Text) (start : Nat) :
    (p.tree buffer start).hasValues = true := by
  induction p generalizing start with
  | leaf l hl => exact l.hasValues_tree _
  | pair inside ih => exact ih _
  | operation op left before after right hleft hright ihl ihr =>
      rw [tree, Tree.hasValues, ihl, ihr]
      rfl
  | sole before l after => exact l.hasValues_tree _
  | compound before inner after hleaf hcontent ih => exact ih _

/-- A phrase has the same tree wherever it stands. -/
theorem detached_tree {k : Kind} (p : Phrase k) {buffer buffer' : Text} {start start' : Nat}
    (h : buffer.OccursAt start p.text) (h' : buffer'.OccursAt start' p.text) :
    (p.tree buffer start).detached = (p.tree buffer' start').detached := by
  induction p generalizing start start' with
  | leaf l hl => exact Leaf.detached_tree h h'
  | pair inside ih => exact ih h.tail.left h'.tail.left
  | operation op left before after right hleft hright ihl ihr =>
      have htext : Source.text
          ⟨buffer, (operation op left before after right hleft hright).span start⟩ =
            Source.text ⟨buffer', (operation op left before after right hleft hright).span start'⟩ :=
        h.slice.trans h'.slice.symm
      rw [tree, tree, Tree.detached, Tree.detached, htext, ihl h.left.left h'.left.left,
        ihr (occursAt_right h) (occursAt_right h')]
  | sole before l after => exact Leaf.detached_tree h.left.right h'.left.right
  | compound before inner after hleaf hcontent ih => exact ih h.left.right h'.left.right

end Phrase

/-- A node of a tree that was read is read again from its source. -/
theorem Tree.exists_parse_sourceText {limit : Nat} {text : Text} {tree : Tree}
    (h : Tree.parse limit text = .ok tree) {node : Tree} (hnode : node ∈ tree.subtrees) :
    ∃ again, Tree.parse limit node.sourceText = .ok again ∧ again.detached = node.detached ∧
      again.same node = true := by
  obtain ⟨p, hp, hlimit, rfl⟩ := Tree.parse_eq_ok_iff.mp h
  have hwhole : (Bracket.ascii text).OccursAt 0 p.text := by
    rw [hp]
    exact .whole _
  obtain ⟨c, position, hbare, hoccurs, rfl, -, hnesting⟩ :=
    p.exists_isBare_of_mem_subtrees hwhole hnode
  have hascii : Bracket.ascii c.text = c.text := Bracket.ascii_of_occursAt hoccurs
  have hdetached := c.detached_tree (.whole c.text) hoccurs
  have hread : Tree.parse limit c.text = .ok (c.tree c.text 0) := by
    rw [Tree.parse_eq_ok_iff, hascii]
    exact ⟨c, rfl, Nat.le_trans (hnesting rfl) hlimit, rfl⟩
  rw [hbare.sourceText_tree hoccurs]
  exact ⟨_, hread, hdetached, Tree.same_of_detached_eq (c.hasValues_tree _ _) hdetached⟩

/-- The tree of a formula with known names is that of some text. -/
theorem Formula.exists_parse_of_parseWith {α : Type} {limit : Nat} {vars extended : Dict α}
    {text : Text} {f : Formula} (h : Formula.parseWith limit vars text = .ok (f, extended)) :
    ∃ substituted, Tree.parse limit substituted = .ok f.tree :=
  ⟨_, (Formula.parseWith_eq_ok_iff.mp h).1⟩

/-- The formula was read, with or without known names. -/
def Formula.WasRead (f : Formula) : Prop :=
  (∃ limit text, Formula.parse limit text = .ok f) ∨
    ∃ (α : Type) (limit : Nat) (vars extended : Dict α) (text : Text),
      Formula.parseWith limit vars text = .ok (f, extended)

/-- Either entry point gives the tree of some text. -/
theorem Formula.WasRead.exists_parse {f : Formula} (h : f.WasRead) :
    ∃ limit text, Tree.parse limit text = .ok f.tree := by
  rcases h with ⟨limit, text, h⟩ | ⟨α, limit, vars, extended, text, h⟩
  · exact ⟨limit, text, (Formula.parse_eq_ok_iff.mp h).1⟩
  · obtain ⟨substituted, hread⟩ := Formula.exists_parse_of_parseWith h
    exact ⟨limit, substituted, hread⟩

/-- **Sources read as their nodes.**  In a formula that was read, with or without known names, every
node is read again from its source with the same limit, and the tree is the same. -/
theorem Formula.parse_sourceText {α : Type} {limit : Nat} {vars : Dict α} {text : Text} {f : Formula}
    (h : Formula.parse limit text = .ok f ∨
      ∃ extended, Formula.parseWith limit vars text = .ok (f, extended)) :
    ∀ node ∈ f.tree.subtrees, ∃ again, Formula.parse limit node.sourceText = .ok again ∧
      again.tree.detached = node.detached ∧ again.tree.same node = true := by
  intro node hnode
  have htree : ∃ read, Tree.parse limit read = .ok f.tree := by
    rcases h with h | ⟨extended, h⟩
    · exact ⟨text, (Formula.parse_eq_ok_iff.mp h).1⟩
    · exact Formula.exists_parse_of_parseWith h
  obtain ⟨read, hread⟩ := htree
  obtain ⟨again, hagain, hdetached, hsame⟩ := Tree.exists_parse_sourceText hread hnode
  refine ⟨⟨again, node.sourceText, Dict.empty⟩, ?_, hdetached, hsame⟩
  exact Formula.parse_eq_ok_iff.mpr ⟨hagain, rfl, rfl⟩

/-- The texts of the five nodes, among them those of a bracket pair and of a percentage, are read back.
-/
theorem Formula.parse_sourceText_of_sample :
    ∃ f, Formula.parse 2 "（1 + x） * 2%".toList = .ok f ∧ ∀ node ∈ f.tree.subtrees,
      ∃ again, Formula.parse 2 node.sourceText = .ok again ∧
        again.tree.detached = node.detached ∧ again.tree.same node = true := by
  obtain ⟨f, hf⟩ := Formula.exists_parse_sample
  have hread : Formula.parse 2 "（1 + x） * 2%".toList = .ok f ∨ ∃ extended,
      Formula.parseWith 2 (Dict.empty : Dict Float) "（1 + x） * 2%".toList = .ok (f, extended) :=
    .inl hf
  exact ⟨f, hf, Formula.parse_sourceText hread⟩

end InfixFormula

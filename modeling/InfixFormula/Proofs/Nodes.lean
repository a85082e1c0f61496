import InfixFormula.Proofs.Phrase

/-!
# The nodes of a tree that was read

A phrase stands in the buffer it was read from, and so do the phrases that it is made of.  At each node
of its tree this leaves a stretch of the buffer that could be a formula of its own: the node is the tree
of a bare content, one without layout at its ends and without brackets around it
(`exists_isBare_of_mem_subtrees`).  No such content is more deeply nested than the one it was found in.

The source of the node is the text of the bare content, and its span is where the content stands.  For
phrases that are not bare, the span of the node may lie strictly inside (`source?_tree`).
-/

namespace InfixFormula

namespace Text

/-- The text stands in the buffer at the position. -/
def OccursAt (buffer : Text) (start : Nat) (t : Text) : Prop :=
  ∃ before after, buffer = before ++ t ++ after ∧ before.length = start

namespace OccursAt

variable {buffer t u : Text} {start : Nat}

/-- A text stands in itself. -/
theorem whole (t : Text) : t.OccursAt 0 t := ⟨[], [], by simp, rfl⟩

/-- The front part of what stands in the buffer stands there too. -/
theorem left (h : buffer.OccursAt start (t ++ u)) : buffer.OccursAt start t := by
  obtain ⟨before, after, rfl, hstart⟩ := h
  exact ⟨before, u ++ after, by simp, hstart⟩

/-- The rest stands behind the front part. -/
theorem right (h : buffer.OccursAt start (t ++ u)) : buffer.OccursAt (start + t.length) u := by
  obtain ⟨before, after, rfl, rfl⟩ := h
  exact ⟨before ++ t, after, by simp, by simp⟩

theorem tail {c : Char} (h : buffer.OccursAt start (c :: t)) : buffer.OccursAt (start + 1) t :=
  right (t := [c]) h

/-- What stands in the buffer ends with it at the latest. -/
theorem le_length (h : buffer.OccursAt start t) : start + t.length ≤ buffer.length := by
  obtain ⟨before, after, rfl, rfl⟩ := h
  simp

/-- A span cuts out what stands there. -/
theorem slice (h : buffer.OccursAt start t) : buffer.slice ⟨start, start + t.length⟩ = t := by
  obtain ⟨before, after, rfl, rfl⟩ := h
  rw [Text.slice, Nat.add_sub_cancel_left, List.append_assoc, List.drop_left, List.take_left]

theorem mem (h : buffer.OccursAt start t) {c : Char} (hc : c ∈ t) : c ∈ buffer := by
  obtain ⟨before, after, rfl, -⟩ := h
  exact List.mem_append_left after (List.mem_append_right before hc)

end OccursAt

end Text

namespace Tree

/-- The source of a node that has one.  Variables have none. -/
def source? : Tree → Option Source
  | const _ source => some source
  | var _ => none
  | binary _ _ _ source => some source

/-- The two operands of an operation. -/
def operands? : Tree → Option (Tree × Tree)
  | binary _ left right _ => some (left, right)
  | _ => none

/-- The nodes of the tree, each with what hangs from it. -/
def subtrees : Tree → List Tree
  | const x source => [const x source]
  | var name => [var name]
  | binary op left right source => binary op left right source :: (left.subtrees ++ right.subtrees)

end Tree

namespace Leaf

variable {buffer : Text} {start : Nat}

theorem subtrees_tree (l : Leaf) (source : Source) : (l.tree source).subtrees = [l.tree source] := by
  cases l <;> rfl

theorem operands?_tree (l : Leaf) (source : Source) : (l.tree source).operands? = none := by
  cases l <;> rfl

/-- A leaf has no other source than its own. -/
theorem source?_tree {l : Leaf} {source s : Source} (hs : s ∈ (l.tree source).source?) :
    s = source := by
  cases l <;> cases hs <;> rfl

/-- A leaf that stands in the buffer shows its text. -/
theorem sourceText_tree {l : Leaf} (h : buffer.OccursAt start l.text) :
    (l.operand buffer start).tree.sourceText = l.text := by
  cases l with
  | number d hd => exact h.slice
  | percentage d hd => exact h.slice
  | name n hn => rfl

end Leaf

namespace Phrase

variable {buffer : Text} {start : Nat}

/-- The right operand of an operation stands behind the operator and the layout there. -/
theorem occursAt_right {j k : Kind} {op : Operator} {left : Phrase j} {before after : Layout}
    {right : Phrase k} {hleft : j.looseness ≤ op.looseness} {hright : k.looseness < op.looseness}
    (h : buffer.OccursAt start (operation op left before after right hleft hright).text) :
    buffer.OccursAt (left.rightStart before after start) right.text := by
  have hbehind := h.right.tail.right
  rwa [List.length_append, ← Nat.add_assoc] at hbehind

/-- The source of a phrase's tree lies in the span of the phrase. -/
theorem source?_tree {k : Kind} (p : Phrase k) {s : Source} (hs : s ∈ (p.tree buffer start).source?) :
    s.buffer = buffer ∧ start ≤ s.span.start ∧ s.span.start ≤ s.span.stop ∧
      s.span.stop ≤ start + p.text.length := by
  induction p generalizing start with
  | leaf l hl =>
      obtain rfl := Leaf.source?_tree hs
      exact ⟨rfl, Nat.le_refl _, Nat.le_add_right _ _, Nat.le_refl _⟩
  | pair inside ih =>
      obtain ⟨hbuffer, hstart, hspan, hstop⟩ := ih hs
      refine ⟨hbuffer, by omega, hspan, ?_⟩
      rw [length_text_pair]
      omega
  | operation op left before after right hleft hright ihl ihr =>
      cases hs
      exact ⟨rfl, Nat.le_refl _, Nat.le_add_right _ _, Nat.le_refl _⟩
  | sole before l after =>
      obtain rfl := Leaf.source?_tree hs
      refine ⟨rfl, Nat.le_add_right _ _, Nat.le_add_right _ _, ?_⟩
      simp only [text, List.length_append]
      omega
  | compound before inner after hleaf hcontent ih =>
      obtain ⟨hbuffer, hstart, hspan, hstop⟩ := ih hs
      refine ⟨hbuffer, by omega, hspan, ?_⟩
      simp only [text, List.length_append]
      omega

/-- A content without layout at its ends and without brackets around it. -/
inductive IsBare : Phrase .content → Prop where
  | leaf (l : Leaf) : IsBare (.sole .none l .none)
  | operation {op : Operator} (p : Phrase (.operation op)) (hleaf : Kind.operation op ≠ .leaf)
      (hcontent : Kind.operation op ≠ .content) : IsBare (.compound .none p .none hleaf hcontent)

/-- **Nodes are bare contents.**  Every node of the tree of a phrase is the tree of a bare content that
stands in the buffer, and has no more levels than the phrase. -/
theorem exists_isBare_of_mem_subtrees {k : Kind} (p : Phrase k) (h : buffer.OccursAt start p.text)
    {node : Tree} (hnode : node ∈ (p.tree buffer start).subtrees) :
    ∃ (c : Phrase .content) (position : Nat), c.IsBare ∧ buffer.OccursAt position c.text ∧
      node = c.tree buffer position ∧ c.nesting ≤ p.nesting + 1 ∧
      (k = .content → c.nesting ≤ p.nesting) := by
  have hleaf : ∀ (l : Leaf) (position n : Nat), buffer.OccursAt position l.text →
      node ∈ (l.operand buffer position).tree.subtrees →
      ∃ (c : Phrase .content) (position : Nat), c.IsBare ∧ buffer.OccursAt position c.text ∧
        node = c.tree buffer position ∧ c.nesting ≤ n + 1 ∧ c.nesting ≤ n := by
    intro l position n hl hmem
    rw [Leaf.operand, l.subtrees_tree, List.mem_singleton] at hmem
    refine ⟨.sole .none l .none, position, .leaf l, ?_, hmem, Nat.zero_le _, Nat.zero_le _⟩
    simpa [text, Layout.none] using hl
  induction p generalizing start with
  | leaf l hl =>
      obtain ⟨c, position, hbare, hoccurs, htree, hnesting, -⟩ := hleaf l start 0 h hnode
      exact ⟨c, position, hbare, hoccurs, htree, hnesting, by simp⟩
  | pair inside ih =>
      obtain ⟨c, position, hbare, hoccurs, htree, hnesting, -⟩ := ih h.tail.left hnode
      exact ⟨c, position, hbare, hoccurs, htree, hnesting, by simp⟩
  | operation op left before after right hleft hright ihl ihr =>
      simp only [tree, Tree.subtrees, List.mem_cons, List.mem_append] at hnode
      rcases hnode with rfl | hnode | hnode
      · refine ⟨.compound .none (operation op left before after right hleft hright) .none (by simp)
          (by simp), start, .operation _ _ _, ?_, rfl, Nat.le_refl _, by simp⟩
        simpa [text, Layout.none] using h
      · obtain ⟨c, position, hbare, hoccurs, htree, hnesting, -⟩ := ihl h.left.left hnode
        refine ⟨c, position, hbare, hoccurs, htree, ?_, by simp⟩
        exact Nat.le_trans hnesting (Nat.succ_le_succ (Nat.le_max_left _ _))
      · obtain ⟨c, position, hbare, hoccurs, htree, hnesting, -⟩ := ihr (occursAt_right h) hnode
        refine ⟨c, position, hbare, hoccurs, htree, ?_, by simp⟩
        exact Nat.le_trans hnesting (Nat.succ_le_succ (Nat.le_max_right _ _))
  | sole before l after =>
      obtain ⟨c, position, hbare, hoccurs, htree, hnesting, hnesting'⟩ :=
        hleaf l _ 0 h.left.right hnode
      exact ⟨c, position, hbare, hoccurs, htree, hnesting, fun _ => hnesting'⟩
  | compound before inner after hleaf' hcontent ih =>
      obtain ⟨c, position, hbare, hoccurs, htree, hnesting, -⟩ := ih h.left.right hnode
      exact ⟨c, position, hbare, hoccurs, htree, Nat.le_succ_of_le hnesting, fun _ => hnesting⟩

namespace IsBare

variable {c : Phrase .content}

/-- A bare content has no layout at its ends. -/
theorem isTight_text (hc : c.IsBare) : c.text.IsTight := by
  cases hc with
  | leaf l => simpa [text, Layout.none] using l.isTight_text
  | operation p hleaf hcontent => simpa [text, Layout.none] using p.isTight_text hcontent

/-- The span of a node is where its content stands. -/
theorem source?_tree (hc : c.IsBare) {s : Source} (hs : s ∈ (c.tree buffer start).source?) :
    s = ⟨buffer, ⟨start, start + c.text.length⟩⟩ := by
  cases hc with
  | leaf l =>
      obtain rfl := Leaf.source?_tree hs
      simp [text, Layout.none]
  | operation p hleaf hcontent =>
      cases p with
      | operation op left before after right hleft hright =>
          cases hs
          simp [text, span, Layout.none]

/-- The source of a node is the text of its content. -/
theorem sourceText_tree (hc : c.IsBare) (h : buffer.OccursAt start c.text) :
    (c.tree buffer start).sourceText = c.text := by
  cases hc with
  | leaf l =>
      have htext : (sole .none l .none).text = l.text := by simp [text, Layout.none]
      rw [htext] at h ⊢
      exact Leaf.sourceText_tree h
  | operation p hleaf hcontent =>
      have htext : (compound .none p .none hleaf hcontent).text = p.text := by
        simp [text, Layout.none]
      rw [htext] at h ⊢
      cases p with
      | operation op left before after right hleft hright => exact h.slice

end IsBare

end Phrase

end InfixFormula

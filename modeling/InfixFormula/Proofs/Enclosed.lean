import InfixFormula.Proofs.BracketStyle
import InfixFormula.Proofs.Groupings
import InfixFormula.Proofs.Relocation
import InfixFormula.Proofs.SourceText

/-!
# Formulas between brackets

A balanced text that is put between brackets is read as it was, one level deeper and one position further
on.  More generally, let a text stand in surroundings, with text before it and behind it.  The reading of
a stretch of it, under a limit that is greater by one and one level deeper, has the outcome of the reading
without the surroundings (`Reader.descend_within`): the tree has its sources in the longer buffer, and a
fault has its position moved by what stands before.  Each step of the reading keeps this: the look at a
piece (`Reader.piece_within`), the items of a level (`Reader.itemsFrom_within`) and the joining of a chain
(`Chain.treeOf_within`).

Balance is what lets the bracket that is put behind the text be the partner of the one that is put before
it.  A text that is read at all is balanced, so formulas can be put between brackets, and between two
such pairs an operator joins the two trees (`Formula.parse_enclosed`).
-/

namespace InfixFormula

/-- What stands around a stretch of text. -/
structure Surroundings where
  before : Text
  after : Text

/-- The text in its surroundings. -/
def Surroundings.around (e : Surroundings) (t : Text) : Text := e.before ++ t ++ e.after

/-- A bracket pair. -/
def Surroundings.brackets : Surroundings := ⟨['('], [')']⟩

/-- The text between brackets. -/
def Text.enclosed (t : Text) : Text := Surroundings.brackets.around t

/-- The span `n` positions further on. -/
def Span.moved (s : Span) (n : Nat) : Span := ⟨s.start + n, s.stop + n⟩

/-- A stretch keeps its length. -/
theorem Span.moved_add (start length n : Nat) :
    (⟨start, start + length⟩ : Span).moved n = ⟨start + n, start + n + length⟩ := by
  simp only [moved, Span.mk.injEq, true_and]
  omega

/-- The source, its buffer in the surroundings. -/
def Source.within (e : Surroundings) (s : Source) : Source :=
  ⟨e.around s.buffer, s.span.moved e.before.length⟩

/-- The tree, the buffers of its sources in the surroundings. -/
def Tree.within (e : Surroundings) : Tree → Tree
  | const x s => const x (s.within e)
  | var name => var name
  | binary op l r s => binary op (l.within e) (r.within e) (s.within e)

def Operand.within (e : Surroundings) (o : Operand) : Operand :=
  ⟨o.tree.within e, o.span.moved e.before.length⟩

def Item.within (e : Surroundings) : Item → Item
  | operand o => operand (o.within e)
  | operator op position => operator op (position + e.before.length)

def Piece.within (e : Surroundings) : Piece → Piece
  | leaf o => leaf (o.within e)
  | compound contents range => compound contents (range.moved e.before.length)

/-- The reader of the text in the surroundings, with room for one level more. -/
def Reader.within (e : Surroundings) (r : Reader) : Reader := ⟨r.limit + 1, e.around r.buffer⟩

/-- The error, met one level deeper in the surroundings. -/
def Error.within (e : Surroundings) : Error → Error
  | malformed position fault => malformed (position + e.before.length) fault
  | tooDeep limit phase => tooDeep (limit + 1) phase
  | missingVariable name => missingVariable name
  | invalid defect => invalid defect

namespace Surroundings

variable {α : Type} (e : Surroundings)

/-- The outcome of a reading in the surroundings, where `f` puts what is read into them. -/
def outcome (f : α → α) : Except Error α → Except Error α
  | .ok a => .ok (f a)
  | .error error => .error (error.within e)

@[simp] theorem outcome_ok (f : α → α) (a : α) : e.outcome f (.ok a) = .ok (f a) := rfl

@[simp] theorem outcome_error (f : α → α) (error : Error) :
    e.outcome f (.error error) = .error (error.within e) := rfl

end Surroundings

/-- What stands before the text moves the positions. -/
def Surroundings.relocation (e : Surroundings) : Relocation := ⟨(· + e.before.length), e.around⟩

/-- Standing in a larger text is a relocation of the sources. -/
theorem Tree.within_eq_relocated (e : Surroundings) : Tree.within e = Tree.relocated e.relocation := by
  funext t
  induction t with
  | const x s => rfl
  | var name => rfl
  | binary op l r s ihl ihr =>
      rw [within, relocated, ihl, ihr]
      rfl

theorem Item.within_eq_relocated (e : Surroundings) : Item.within e = Item.relocated e.relocation := by
  funext item
  cases item with
  | operand o =>
      rw [within, Operand.within, Tree.within_eq_relocated]
      rfl
  | operator op position => rfl

/-- A chain is joined in surroundings as it is joined without. -/
theorem Chain.treeOf_within (e : Surroundings) (buffer : Text) (start : Nat) (items : List Item) :
    treeOf (e.around buffer) (start + e.before.length) (items.map (Item.within e)) =
      e.outcome (Tree.within e) (treeOf buffer start items) := by
  have hrelocated := treeOf_relocated e.relocation buffer start items
  rw [Item.within_eq_relocated, Tree.within_eq_relocated]
  cases htree : treeOf buffer start items with
  | ok tree =>
      rw [htree] at hrelocated
      exact hrelocated
  | error error =>
      obtain ⟨fault, rfl⟩ := exists_fault_of_treeOf htree
      rw [htree] at hrelocated
      exact hrelocated

namespace Reader

variable (e : Surroundings) (r : Reader)

/-- A piece is looked at in surroundings as it is looked at without. -/
theorem piece_within (depth start : Nat) (t : Text) :
    (r.within e).piece (depth + 1) (start + e.before.length) t =
      e.outcome (Piece.within e) (r.piece depth start t) := by
  have hmove : ∀ n, start + e.before.length + n = start + n + e.before.length := by omega
  unfold piece
  by_cases hdepth : r.limit < depth
  · have hdeep : (r.within e).limit < depth + 1 := Nat.succ_lt_succ hdepth
    simp only [hdepth, hdeep, if_true]
    simp [Error.within, within]
  · have hroom : ¬ (r.within e).limit < depth + 1 := fun h => hdepth (Nat.lt_of_succ_lt_succ h)
    simp only [hdepth, hroom, if_false]
    by_cases hempty : t.trim.isEmpty = true
    · simp [hempty, Error.within, hmove]
    · simp only [hempty, hmove]
      cases Literal.value? t.trim with
      | some x =>
          simp [Piece.within, Operand.within, Tree.within, Source.within, Span.moved_add, within]
      | none =>
          by_cases hdelimiter : t.trim.any Literal.isDelimiter = true
          · simp [hdelimiter, Piece.within, Span.moved_add]
          · cases Literal.rejection t.trim with
            | some fault => simp [hdelimiter, Error.within]
            | none =>
                simp [hdelimiter, Piece.within, Operand.within, Tree.within, Span.moved_add]

section Items

variable {below below' : Nat → Text → Except Error Operand}

/-- An operand is found in the larger text as in its own, further on. -/
theorem operandBetween_within
    (h : ∀ position u, below' (position + e.before.length) u =
      e.outcome (Operand.within e) (below position u)) (mark : Nat) (t : Text) :
    operandBetween below' (mark + e.before.length) t =
      e.outcome (List.map (Item.within e)) (operandBetween below mark t) := by
  unfold operandBetween
  by_cases hblank : t.isBlank = true
  · simp [hblank]
  · simp only [hblank, h]
    cases below mark t <;> simp [Item.within]

/-- What holds of the next level in surroundings holds of the items of this one. -/
theorem itemsFrom_within
    (h : ∀ position u, below' (position + e.before.length) u =
      e.outcome (Operand.within e) (below position u))
    (mark : Nat) (pending : Text) (position : Nat) (rest : Text) :
    itemsFrom below' (mark + e.before.length) pending (position + e.before.length) rest =
      e.outcome (List.map (Item.within e)) (itemsFrom below mark pending position rest) := by
  have hmove : ∀ n, position + e.before.length + n = position + n + e.before.length := by omega
  have hpending := operandBetween_within e h mark pending.reverse
  cases rest with
  | nil =>
      rw [itemsFrom_nil, itemsFrom_nil]
      exact hpending
  | cons c tail =>
      rcases Literal.eq_bracket_or_symbol_or_other c with rfl | rfl | ⟨op, rfl⟩ | hc
      · rw [itemsFrom_opening, itemsFrom_opening, hpending]
        cases operandBetween below mark pending.reverse with
        | error error => rfl
        | ok new =>
            cases Bracket.closingOffset? 0 tail with
            | none => rfl
            | some k =>
                simp only [Surroundings.outcome_ok, hmove, h]
                cases below (position + 1) (tail.take k) with
                | error error => rfl
                | ok o =>
                    have hlater := itemsFrom_within h (position + k + 2) [] (position + k + 2)
                      (tail.drop (k + 1))
                    simp only [Surroundings.outcome_ok, hlater,
                      Nat.add_right_comm _ e.before.length 2]
                    cases itemsFrom below (position + k + 2) [] (position + k + 2)
                        (tail.drop (k + 1)) <;>
                      simp [Item.within, Operand.within, Span.moved]
      · rw [itemsFrom_closing, itemsFrom_closing]
        rfl
      · rw [itemsFrom_operator, itemsFrom_operator, hpending]
        cases operandBetween below mark pending.reverse with
        | error error => rfl
        | ok new =>
            have hlater := itemsFrom_within h (position + 1) [] (position + 1) tail
            simp only [Surroundings.outcome_ok, hmove, hlater]
            cases itemsFrom below (position + 1) [] (position + 1) tail <;> simp [Item.within]
      · rw [itemsFrom_other _ _ _ _ _ hc, itemsFrom_other _ _ _ _ _ hc, hmove]
        exact itemsFrom_within h _ _ _ _
termination_by rest.length

end Items

/-- **Reading in surroundings.**  A stretch is read one level deeper in surroundings, with room for one
level more, as it is read without. -/
theorem descend_within (depth start : Nat) (t : Text) :
    (r.within e).descend (depth + 1) (start + e.before.length) t =
      e.outcome (Operand.within e) (r.descend depth start t) := by
  have hpiece := piece_within e r depth start t
  cases hp : r.piece depth start t with
  | error error =>
      rw [hp] at hpiece
      rw [descend_of_error hp, descend_of_error hpiece]
      rfl
  | ok p =>
      have hdepth := depth_le_of_piece hp
      rw [hp] at hpiece
      cases p with
      | leaf o =>
          rw [descend_of_leaf hp, descend_of_leaf hpiece]
          rfl
      | compound contents range =>
          have hitems := itemsFrom_within e (fun position u => descend_within (depth + 1) position u)
            range.start [] range.start contents
          rw [descend_of_compound hp, descend_of_compound hpiece]
          simp only [Span.moved, hitems]
          cases itemsFrom (r.descend (depth + 1)) range.start [] range.start contents with
          | error error => rfl
          | ok items =>
              simp only [Surroundings.outcome_ok, within, Chain.treeOf_within]
              cases Chain.treeOf r.buffer range.start items <;>
                simp [Operand.within, Span.moved]
termination_by r.limit + 1 - depth

end Reader

namespace Tree

/-- The copy of a tree that stands in the surroundings: the spans of its sources are moved by what stands
before, in characters and in bytes, and the sources show the same texts. -/
structure IsCopy (e : Surroundings) (t u : Tree) : Prop where
  eq_within : u = t.within e
  same : u.same t = true
  byteSpan : ∀ node ∈ t.subtrees, ∀ s ∈ node.source?,
    (s.within e).byteSpan = s.byteSpan.moved e.before.utf8Length

end Tree

/-- What stands in a text stands in its surroundings too. -/
theorem Text.OccursAt.around {buffer t : Text} {start : Nat} (h : buffer.OccursAt start t)
    (e : Surroundings) : (e.around buffer).OccursAt (start + e.before.length) t := by
  obtain ⟨before, after, rfl, rfl⟩ := h
  exact ⟨e.before ++ before, after ++ e.after, by simp [Surroundings.around],
    by simp [Nat.add_comm]⟩

/-- The text that a source shows takes as many bytes in surroundings. -/
theorem Source.byteSpan_within (e : Surroundings) {buffer t : Text} {start : Nat}
    (h : buffer.OccursAt start t) :
    (Source.within e ⟨buffer, ⟨start, start + t.length⟩⟩).byteSpan =
      (Source.byteSpan ⟨buffer, ⟨start, start + t.length⟩⟩).moved e.before.utf8Length := by
  have htext : Source.text ⟨buffer, ⟨start, start + t.length⟩⟩ = t := h.slice
  have htext' : (Source.within e ⟨buffer, ⟨start, start + t.length⟩⟩).text = t := by
    rw [Source.within, Span.moved_add]
    exact (h.around e).slice
  have hle : start ≤ buffer.length := Nat.le_trans (Nat.le_add_right _ _) h.le_length
  have hbefore : (e.around buffer).take (start + e.before.length) = e.before ++ buffer.take start := by
    rw [Surroundings.around, List.append_assoc, Nat.add_comm, List.take_length_add_append,
      List.take_append_of_le_length hle]
  unfold byteSpan
  rw [htext, htext']
  simp only [Source.within, Span.moved, hbefore, Text.utf8Length_append, Span.mk.injEq]
  omega

namespace Phrase

variable (e : Surroundings) {buffer : Text} {start : Nat}

/-- The tree of a phrase that stands in a larger text is its tree, moved there. -/
theorem tree_within {k : Kind} (p : Phrase k) (buffer : Text) (start : Nat) :
    (p.tree buffer start).within e = p.tree (e.around buffer) (start + e.before.length) := by
  have hleaf : ∀ (l : Leaf) (position : Nat), (l.operand buffer position).tree.within e =
      (l.operand (e.around buffer) (position + e.before.length)).tree := by
    intro l position
    cases l <;> simp [Leaf.operand, Leaf.tree, Tree.within, Source.within, Span.moved_add]
  have hmove : ∀ start n, start + e.before.length + n = start + n + e.before.length := by omega
  induction p generalizing start with
  | leaf l hl => exact hleaf l start
  | pair inside ih => rw [tree, tree, ih, hmove]
  | operation op left before after right hleft hright ihl ihr =>
      simp only [tree, Tree.within, ihl, ihr, rightStart, hmove, Source.within, span, Span.moved_add]
  | sole before l after => rw [tree, tree, hleaf, hmove]
  | compound before inner after hkind hcontent ih => rw [tree, tree, ih, hmove]

/-- The tree of a phrase that stands in a longer buffer is the copy of its tree. -/
theorem isCopy_tree {k : Kind} (p : Phrase k) (h : buffer.OccursAt start p.text) :
    Tree.IsCopy e (p.tree buffer start)
      (p.tree (e.around buffer) (start + e.before.length)) where
  eq_within := (p.tree_within e buffer start).symm
  same := Tree.same_of_detached_eq (p.hasValues_tree _ _) (p.detached_tree (h.around e) h)
  byteSpan := by
    intro node hnode s hs
    obtain ⟨c, position, hbare, hoccurs, rfl, -, -⟩ := p.exists_isBare_of_mem_subtrees h hnode
    obtain rfl := hbare.source?_tree hs
    exact Source.byteSpan_within e hoccurs

end Phrase

theorem Text.enclosed_eq (t : Text) : t.enclosed = '(' :: (t ++ [')']) := by
  simp [enclosed, Surroundings.around, Surroundings.brackets]

/-- Brackets may be turned before or after the enclosing pair is put around. -/
theorem Text.ascii_enclosed (t : Text) : Bracket.ascii t.enclosed = (Bracket.ascii t).enclosed := by
  simp [enclosed_eq, Bracket.ascii]

/-- No literal stands between brackets. -/
theorem Literal.value?_enclosed (t : Text) : Literal.value? t.enclosed = none := by
  rw [Option.eq_none_iff_forall_ne_some]
  intro x hx
  obtain ⟨l, hl, -⟩ := Leaf.exists_of_value? hx
  have hflat := Phrase.isFlat_leaf l
  rw [hl, t.enclosed_eq] at hflat
  cases hflat

/-- No layout stands outside the enclosing pair. -/
theorem Text.isTight_enclosed (t : Text) : t.enclosed.IsTight where
  ne_nil := by simp [enclosed_eq]
  head := by
    intro c hc
    obtain rfl : '(' = c := by simpa [enclosed_eq] using hc
    rfl
  last := by
    intro c hc
    have hlast : t.enclosed.getLast? = some ')' := List.getLast?_concat (l := '(' :: t)
    obtain rfl : ')' = c := Option.some.inj (hlast.symm.trans hc)
    rfl

namespace Reader

variable (r : Reader)

/-- An enclosed text is a compound piece of the whole length. -/
theorem piece_enclosed (start : Nat) (t : Text) :
    r.piece 0 start t.enclosed = .ok (.compound t.enclosed ⟨start, start + t.enclosed.length⟩) := by
  have hnone : Text.isBlank [] = true := rfl
  have htrim : t.enclosed.trim = t.enclosed := by
    simpa using Text.trim_between hnone t.isTight_enclosed hnone
  have hspan : t.enclosed.coreSpan start = ⟨start, start + t.enclosed.length⟩ := by
    simpa using Text.coreSpan_between hnone t.isTight_enclosed hnone start
  have hblank : t.enclosed.isBlank = false := by
    simpa using Text.isBlank_between hnone t.isTight_enclosed hnone
  rw [piece_eq_compound_iff, htrim, hspan]
  exact ⟨Nat.zero_le _, hblank, Literal.value?_enclosed t, by simp [t.enclosed_eq, Literal.isDelimiter],
    rfl, rfl⟩

/-- A balanced text between brackets is read one level deeper, and there is nothing else to be read. -/
theorem descend_enclosed {t : Text} (ht : Bracket.isBalanced 0 t = true) (start : Nat) :
    (r.descend 0 start t.enclosed).map Operand.tree =
      (r.descend 1 (start + 1) t).map Operand.tree := by
  have hclosing : Bracket.closingOffset? 0 (t ++ [')']) = some t.length :=
    Bracket.closingOffset?_balanced ht []
  have htake : (t ++ [')']).take t.length = t := List.take_left
  have hdrop : (t ++ [')']).drop (t.length + 1) = [] := by simp
  have hnone : ∀ mark, operandBetween (r.descend 1) mark [] = .ok [] := fun _ => rfl
  rw [descend_of_compound (r.piece_enclosed start t), t.enclosed_eq, itemsFrom_opening]
  simp only [List.reverse_nil, hnone, hclosing, htake, hdrop, itemsFrom_nil]
  cases r.descend 1 (start + 1) t with
  | error error => rfl
  | ok o => rfl

end Reader

/-- **Brackets around a balanced text.**  The text is read as it is without them, with room for one level
more. -/
theorem Tree.parse_of_isBalanced {text : Text} (h : Bracket.isBalanced 0 (Bracket.ascii text) = true)
    (limit : Nat) :
    Tree.parse (limit + 1) text.enclosed =
      Surroundings.brackets.outcome (Tree.within .brackets) (Tree.parse limit text) := by
  have hinside := Reader.descend_within .brackets ⟨limit, Bracket.ascii text⟩ 0 0 (Bracket.ascii text)
  rw [Tree.parse, Tree.parse, text.ascii_enclosed, Reader.tree_eq_descend, Reader.tree_eq_descend,
    Reader.descend_enclosed _ h 0]
  calc (Reader.descend ⟨limit + 1, (Bracket.ascii text).enclosed⟩ 1 1 (Bracket.ascii text)).map
          Operand.tree
      = (Surroundings.brackets.outcome (Operand.within .brackets)
          (Reader.descend ⟨limit, Bracket.ascii text⟩ 0 0 (Bracket.ascii text))).map Operand.tree :=
        congrArg (Except.map Operand.tree) hinside
    _ = _ := by cases Reader.descend ⟨limit, Bracket.ascii text⟩ 0 0 (Bracket.ascii text) <;> rfl

/-- A text that is read is balanced. -/
theorem Tree.isBalanced_of_parse {limit : Nat} {text : Text} {tree : Tree}
    (h : Tree.parse limit text = .ok tree) : Bracket.isBalanced 0 (Bracket.ascii text) = true := by
  obtain ⟨c, hc, -, -⟩ := Tree.parse_eq_ok_iff.mp h
  rw [← hc]
  exact c.isBalanced_text

/-- Two texts between brackets with an operator between them. -/
def Text.joined (left : Text) (before : Layout) (op : Operator) (after : Layout) (right : Text) : Text :=
  left.enclosed ++ before.text ++ op.symbol :: (after.text ++ right.enclosed)

/-- What stands around the left one of two texts that are joined. -/
def Surroundings.leftOf (before : Layout) (op : Operator) (after : Layout) (right : Text) :
    Surroundings :=
  ⟨['('], ')' :: (before.text ++ op.symbol :: (after.text ++ right.enclosed))⟩

/-- What stands around the right one of two texts that are joined. -/
def Surroundings.rightOf (left : Text) (before : Layout) (op : Operator) (after : Layout) :
    Surroundings :=
  ⟨left.enclosed ++ before.text ++ op.symbol :: (after.text ++ ['(']), [')']⟩

namespace Text

variable (left right : Text) (before after : Layout) (op : Operator)

theorem around_leftOf :
    (Surroundings.leftOf before op after right).around left = left.joined before op after right := by
  simp [Surroundings.leftOf, Surroundings.around, joined, enclosed_eq]

theorem around_rightOf :
    (Surroundings.rightOf left before op after).around right = left.joined before op after right := by
  simp [Surroundings.rightOf, Surroundings.around, joined, enclosed_eq]

/-- Neither layout nor an operator is a bracket. -/
theorem ascii_joined :
    Bracket.ascii (left.joined before op after right) =
      (Bracket.ascii left).joined before op after (Bracket.ascii right) := by
  have hop : ∀ t, Bracket.ascii (op.symbol :: t) = op.symbol :: Bracket.ascii t := by
    cases op <;> exact fun _ => rfl
  simp only [joined, Bracket.ascii_append, ascii_enclosed, hop, Bracket.ascii_of_isBlank before.blank,
    Bracket.ascii_of_isBlank after.blank]

end Text

namespace Phrase

variable (c : Phrase .content) (before : Layout) (op : Operator) (after : Layout)
  (d : Phrase .content)

/-- The operation on two contents between brackets. -/
def onPairs : Phrase (.operation op) :=
  .operation op c.pair before after d.pair (Nat.zero_le _) (by cases op <;> decide)

/-- The phrase of two contents between brackets with an operator between them. -/
def joined : Phrase .content :=
  .compound .none (c.onPairs before op after d) .none (by simp) (by simp)

/-- Joined contents are two pairs with the operator between them. -/
theorem text_onPairs : (c.onPairs before op after d).text = c.text.joined before op after d.text := by
  simp [onPairs, Text.joined, text, Text.enclosed_eq]

/-- Joined contents have the joined text. -/
theorem text_joined : (c.joined before op after d).text = c.text.joined before op after d.text := by
  simp [joined, text, text_onPairs, Layout.none]

/-- In the tree of two joined contents stand the copies of their trees. -/
theorem tree_joined :
    (c.joined before op after d).tree (c.text.joined before op after d.text) 0 =
      .binary op ((c.tree c.text 0).within (.leftOf before op after d.text))
        ((d.tree d.text 0).within (.rightOf c.text before op after))
        (Source.ofText (c.text.joined before op after d.text)) := by
  have hspan : (c.onPairs before op after d).span 0 =
      (c.text.joined before op after d.text).fullSpan := by
    rw [span, text_onPairs, Nat.zero_add]
    rfl
  have hright : rightStart c.pair before after 0 + 1 =
      0 + (Surroundings.rightOf c.text before op after).before.length := by
    simp [rightStart, text, Surroundings.rightOf, Text.enclosed_eq]
    omega
  rw [tree_within, tree_within, Text.around_leftOf, Text.around_rightOf, Source.ofText, ← hspan,
    ← hright]
  rfl

end Phrase

namespace Tree

variable {limit : Nat} {left right : Text} {t u : Tree}

/-- The tree of a text is the tree of a content that the text is. -/
theorem isCopy_within (h : Tree.parse limit left = .ok t) (e : Surroundings) :
    IsCopy e t (t.within e) := by
  obtain ⟨c, hc, -, rfl⟩ := Tree.parse_eq_ok_iff.mp h
  rw [c.tree_within]
  apply c.isCopy_tree
  rw [hc]
  exact .whole _

/-- Two formulas between brackets make an operation. -/
theorem parse_joined (ht : Tree.parse limit left = .ok t) (hu : Tree.parse limit right = .ok u)
    (before : Layout) (op : Operator) (after : Layout) :
    Tree.parse (limit + 1) (left.joined before op after right) =
      .ok (.binary op (t.within (.leftOf before op after (Bracket.ascii right)))
        (u.within (.rightOf (Bracket.ascii left) before op after))
        (Source.ofText (Bracket.ascii (left.joined before op after right)))) := by
  obtain ⟨c, hc, hnesting, rfl⟩ := Tree.parse_eq_ok_iff.mp ht
  obtain ⟨d, hd, hnesting', rfl⟩ := Tree.parse_eq_ok_iff.mp hu
  have hlimit : (c.joined before op after d).nesting ≤ limit + 1 :=
    Nat.succ_le_succ (Nat.max_le.mpr ⟨hnesting, hnesting'⟩)
  rw [Tree.parse_eq_ok_iff, Text.ascii_joined, ← hc, ← hd]
  exact ⟨_, c.text_joined before op after d, hlimit, (c.tree_joined before op after d).symm⟩

end Tree

/-- **Brackets compose.**  With room for one level more, a formula between brackets is read to the copy
of its tree, and two formulas between brackets with an operator between them are read to the operation
on the copies of their trees, which was read from the whole text.  A balanced text that is malformed is
malformed between brackets, with the same fault one position further on. -/
theorem Formula.parse_enclosed (limit : Nat) (text : Text) :
    (∀ f, Formula.parse limit text = .ok f →
        (∃ g, Formula.parse (limit + 1) text.enclosed = .ok g ∧
          Tree.IsCopy .brackets f.tree g.tree) ∧
        ∀ (text' : Text) (f' : Formula), Formula.parse limit text' = .ok f' →
          ∀ (before : Layout) (op : Operator) (after : Layout), ∃ g left right,
            Formula.parse (limit + 1) (text.joined before op after text') = .ok g ∧
            g.tree = .binary op left right
              (Source.ofText (Bracket.ascii (text.joined before op after text'))) ∧
            Tree.IsCopy (.leftOf before op after (Bracket.ascii text')) f.tree left ∧
            Tree.IsCopy (.rightOf (Bracket.ascii text) before op after) f'.tree right) ∧
      (Bracket.isBalanced 0 (Bracket.ascii text) = true → ∀ position fault,
        Formula.parse limit text = .error (.malformed position fault) →
          Formula.parse (limit + 1) text.enclosed = .error (.malformed (position + 1) fault)) := by
  refine ⟨?_, ?_⟩
  · intro f hf
    have htree := (Formula.parse_eq_ok_iff.mp hf).1
    refine ⟨?_, ?_⟩
    · have hread := Tree.parse_of_isBalanced (Tree.isBalanced_of_parse htree) limit
      rw [htree] at hread
      exact ⟨_, Formula.parse_of_tree hread, Tree.isCopy_within htree _⟩
    · intro text' f' hf' before op after
      have htree' := (Formula.parse_eq_ok_iff.mp hf').1
      have hread := Tree.parse_joined htree htree' before op after
      exact ⟨_, _, _, Formula.parse_of_tree hread, rfl, Tree.isCopy_within htree _,
        Tree.isCopy_within htree' _⟩
  · intro hbalanced position fault herror
    have hread := Tree.parse_of_isBalanced hbalanced limit
    rw [Formula.parse_eq_error_iff.mp herror] at hread
    exact Formula.parse_eq_error_iff.mpr hread

/-- One more level is room enough for a pair around the text.  The empty pair fails where the empty text
does, one character further on. -/
theorem Formula.parse_enclosed_sample :
    ∃ f g h, Formula.parse 2 "（1 + x） * 2%".toList = .ok f ∧
      Formula.parse 3 "(（1 + x） * 2%)".toList = .ok g ∧ g.tree.same f.tree = true ∧
      Formula.parse 3 "(（1 + x） * 2%)-(（1 + x） * 2%)".toList = .ok h ∧
      Formula.parse 1 [] = .error (.malformed 0 .emptyExpression) ∧
      Formula.parse 2 "()".toList = .error (.malformed 1 .emptyExpression) := by
  obtain ⟨f, hf⟩ := Formula.exists_parse_sample
  obtain ⟨⟨g, hg, hcopy⟩, hjoin⟩ := (Formula.parse_enclosed 2 "（1 + x） * 2%".toList).1 f hf
  obtain ⟨h, -, -, hh, -⟩ := hjoin _ f hf .none .subtract .none
  have htext : Text.joined "（1 + x） * 2%".toList .none .subtract .none "（1 + x） * 2%".toList =
      "(（1 + x） * 2%)-(（1 + x） * 2%)".toList := by decide
  rw [htext] at hh
  have hempty : Formula.parse 1 [] = .error (.malformed 0 .emptyExpression) := by
    rw [Formula.parse_eq_error_iff, Tree.parse, Reader.tree_eq_descend, Reader.descend_of_error rfl]
    rfl
  have hpair := (Formula.parse_enclosed 1 []).2 rfl 0 .emptyExpression hempty
  exact ⟨f, g, h, hf, hg, hcopy.same, hh, hempty, hpair⟩

end InfixFormula

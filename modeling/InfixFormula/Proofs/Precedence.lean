import InfixFormula.Proofs.Phrase

/-!
# Chains are joined by precedence

The operands and operators of a phrase at its own bracket level are its items, and as a chain they are
joined to the tree of the phrase (`treeOf_items`).  The two passes over the chain do this because of how
loosely the operands hold together: an additive operator has nothing but one product at its right, which
the first pass has joined to a single operand before the second pass comes to it, and a multiplicative
operator has a single operand at its right and one product at its left, which the first pass has been
joining from the left.

In the other direction every chain is the chain of a phrase.  Such a phrase is built from the left, one
operator and one operand at a time (`exists_attach`): the new operator takes the whole phrase as its
left operand if that holds together tightly enough, and else only the right operand of the phrase.  So
whatever is read as blanks, operands and operators (`Spelled`) and makes a chain is a phrase
(`exists_of_ofItems`).
-/

namespace InfixFormula

namespace Chain

/-- The chain with an operator and another chain behind it. -/
def join (c : Chain) (op : Operator) (c' : Chain) : Chain :=
  ⟨c.first, c.links ++ (op, c'.first) :: c'.links⟩

/-- The operand that both passes make of the chain. -/
def operand (buffer : Text) (c : Chain) : Operand :=
  (products buffer c.first c.links).sum buffer

variable {buffer : Text} {op : Operator} {c c' : Chain}

/-- Behind the links of one chain, an operator and another chain give further links. -/
theorem linksOf_append {items later : List Item} {links : List (Operator × Operand)} {start : Nat}
    (h : linksOf items = .ok links) (hlater : ofItems start later = .ok c) (position : Nat) :
    linksOf (items ++ .operator op position :: later) = .ok (links ++ (op, c.first) :: c.links) := by
  induction items using linksOf.induct generalizing links with
  | case1 =>
      cases h
      cases later with
      | nil => cases hlater
      | cons item later =>
          cases item with
          | operator next position' => cases hlater
          | operand o =>
              simp only [ofItems] at hlater
              cases hrest : linksOf later with
              | error e => simp [hrest] at hlater
              | ok more =>
                  rw [hrest] at hlater
                  cases hlater
                  simp [linksOf, hrest]
  | case2 o items => cases h
  | case3 op' position' => cases h
  | case4 op' position' next position'' items => cases h
  | case5 op' position' o items more hmore ih =>
      simp only [linksOf, hmore] at h
      cases h
      simp only [List.cons_append, linksOf, ih hmore]
  | case6 op' position' o items e he ih => simp [linksOf, he] at h

/-- What stands at both sides of an operator is read on its own. -/
theorem ofItems_append {items later : List Item} {start start' : Nat}
    (h : ofItems start items = .ok c) (hlater : ofItems start' later = .ok c') (position : Nat) :
    ofItems start (items ++ .operator op position :: later) = .ok (c.join op c') := by
  cases items with
  | nil => cases h
  | cons item items =>
      cases item with
      | operator next position' => cases h
      | operand o =>
          simp only [ofItems] at h
          cases hrest : linksOf items with
          | error e => simp [hrest] at h
          | ok links =>
              rw [hrest] at h
              cases h
              simp only [List.cons_append, ofItems, linksOf_append hrest hlater]
              rfl

/-- The first pass joins factors from the left until it comes to an additive operator. -/
theorem products_multiplicative (buffer : Text) {links : List (Operator × Operand)}
    (h : ∀ link ∈ links, link.1.isMultiplicative = true) (running : Operand)
    (more : List (Operator × Operand)) :
    products buffer running (links ++ more) =
      products buffer (links.foldl (fun left link => operation buffer link.1 left link.2) running)
        more := by
  induction links generalizing running with
  | nil => rfl
  | cons link links ih =>
      have hlink := h link List.mem_cons_self
      rw [List.cons_append, products, if_pos hlink, List.foldl_cons]
      exact ih (fun l hl => h l (List.mem_cons_of_mem _ hl)) _

/-- The first pass leaves an additive operator where it is and starts anew behind it. -/
theorem products_additive_append (buffer : Text) (hop : op.isMultiplicative = false)
    (running o : Operand) (links more : List (Operator × Operand)) :
    products buffer running (links ++ (op, o) :: more) =
      (products buffer running links).join op (products buffer o more) := by
  induction links generalizing running with
  | nil => simp [products, join, hop]
  | cons link links ih =>
      obtain ⟨op', o'⟩ := link
      rw [List.cons_append, products, products]
      by_cases hop' : op'.isMultiplicative = true
      · rw [if_pos hop', if_pos hop']
        exact ih _
      · rw [if_neg hop', if_neg hop', ih]
        rfl

/-- A product is joined from the left. -/
theorem operand_product (h : ∀ link ∈ c.links, link.1.isMultiplicative = true) :
    c.operand buffer =
      c.links.foldl (fun left link => operation buffer link.1 left link.2) c.first := by
  have hproducts := products_multiplicative buffer h c.first []
  rw [List.append_nil] at hproducts
  rw [operand, hproducts]
  rfl

/-- A factor is joined to the product in front of it. -/
theorem operand_join_multiplicative (hop : op.isMultiplicative = true)
    (h : ∀ link ∈ c.links, link.1.isMultiplicative = true) (hc' : c'.links = []) :
    (c.join op c').operand buffer =
      operation buffer op (c.operand buffer) (c'.operand buffer) := by
  have hlinks : ∀ link ∈ (c.join op c').links, link.1.isMultiplicative = true := by
    intro link hlink
    simp only [join, hc', List.mem_append, List.mem_singleton] at hlink
    rcases hlink with hlink | rfl
    · exact h link hlink
    · exact hop
  have hfirst : c'.operand buffer = c'.first := by
    rw [operand, hc']
    rfl
  rw [operand_product hlinks, operand_product h, hfirst]
  simp only [join, hc', List.foldl_append, List.foldl_cons, List.foldl_nil]

/-- A product is joined to the sum in front of it. -/
theorem operand_join_additive (hop : op.isMultiplicative = false)
    (h : ∀ link ∈ c'.links, link.1.isMultiplicative = true) :
    (c.join op c').operand buffer =
      operation buffer op (c.operand buffer) (c'.operand buffer) := by
  have hright := products_multiplicative buffer h c'.first []
  rw [List.append_nil, products] at hright
  have hsplit := products_additive_append buffer hop c.first c'.first c.links c'.links
  rw [hright] at hsplit
  rw [operand_product h, operand, operand, show (c.join op c').first = c.first from rfl,
    show (c.join op c').links = c.links ++ (op, c'.first) :: c'.links from rfl, hsplit]
  simp only [sum, join, List.foldl_append, List.foldl_cons, List.foldl_nil]

end Chain

namespace Phrase

variable {k : Kind} {buffer : Text}

/-- The operands and operators at the bracket level of the phrase. -/
def items (buffer : Text) : {k : Kind} → Phrase k → Nat → List Item
  | _, operation op left before after right _ _, start =>
      left.items buffer start ++ .operator op (start + left.text.length + before.text.length) ::
        right.items buffer (left.rightStart before after start)
  | _, p@(leaf _ _), start => [.operand (p.operand buffer start)]
  | _, p@(pair _), start => [.operand (p.operand buffer start)]
  | _, p@(sole _ _ _), start => [.operand (p.operand buffer start)]
  | _, p@(compound _ _ _ _ _), start => [.operand (p.operand buffer start)]

/-- The chain of the items. -/
def chain (buffer : Text) : {k : Kind} → Phrase k → Nat → Chain
  | _, operation op left before after right _ _, start =>
      (left.chain buffer start).join op (right.chain buffer (left.rightStart before after start))
  | _, p@(leaf _ _), start => ⟨p.operand buffer start, []⟩
  | _, p@(pair _), start => ⟨p.operand buffer start, []⟩
  | _, p@(sole _ _ _), start => ⟨p.operand buffer start, []⟩
  | _, p@(compound _ _ _ _ _), start => ⟨p.operand buffer start, []⟩

/-- A leaf or a pair is one item. -/
theorem items_tight (a : Phrase k) (ha : k.looseness = 0) (start : Nat) :
    a.items buffer start = [.operand (a.operand buffer start)] := by
  cases a with
  | leaf l hl => rfl
  | pair inside => rfl
  | operation op left before after right hleft hright => cases op <;> cases ha
  | sole before l after => rfl
  | compound before inner after hkind hcontent => rfl

/-- The items of a phrase are read as its chain. -/
theorem ofItems_items (p : Phrase k) (contentStart start : Nat) :
    Chain.ofItems contentStart (p.items buffer start) = .ok (p.chain buffer start) := by
  induction p generalizing contentStart start with
  | leaf l hl => rfl
  | pair inside ih => rfl
  | operation op left before after right hleft hright ihl ihr =>
      exact Chain.ofItems_append (ihl contentStart start) (ihr 0 _) _
  | sole before l after => rfl
  | compound before inner after hkind hcontent ih => rfl

/-- A leaf or a pair is a chain of one operand. -/
theorem chain_tight (p : Phrase k) (hk : k.looseness = 0) (start : Nat) :
    p.chain buffer start = ⟨p.operand buffer start, []⟩ := by
  cases p with
  | leaf l hl => rfl
  | pair inside => rfl
  | operation op left before after right hleft hright => cases op <;> cases hk
  | sole before l after => rfl
  | compound before inner after hkind hcontent => rfl

theorem links_chain_of_tight (p : Phrase k) (hk : k.looseness = 0) (start : Nat) :
    (p.chain buffer start).links = [] := by
  rw [p.chain_tight hk]

/-- What binds at least as tightly as a product has no additive operator at its level. -/
theorem links_chain_of_product (p : Phrase k) (hk : k.looseness ≤ 1) (start : Nat) :
    ∀ link ∈ (p.chain buffer start).links, link.1.isMultiplicative = true := by
  induction p generalizing start with
  | leaf l hl => simp [chain]
  | pair inside ih => simp [chain]
  | operation op left before after right hleft hright ihl ihr =>
      have hop : op.looseness ≤ 1 := hk
      have hmultiplicative : op.isMultiplicative = true := by
        cases op <;> simp [Operator.looseness] at hop <;> rfl
      intro link hlink
      simp only [chain, Chain.join, List.mem_append, List.mem_cons] at hlink
      rcases hlink with hlink | rfl | hlink
      · exact ihl (Nat.le_trans hleft hop) start link hlink
      · exact hmultiplicative
      · exact ihr (by omega) _ link hlink
  | sole before l after => simp [chain]
  | compound before inner after hkind hcontent ih => simp [chain]

/-- The operation on the operands of two phrases is the operand of their operation. -/
theorem operation_operand {j : Kind} (op : Operator) (left : Phrase j) (before after : Layout)
    (right : Phrase k) (hleft : j.looseness ≤ op.looseness) (hright : k.looseness < op.looseness)
    (start : Nat) :
    Chain.operation buffer op (left.operand buffer start)
        (right.operand buffer (left.rightStart before after start)) =
      (operation op left before after right hleft hright).operand buffer start := by
  have hstop := rightStart_add_length op left before after right hleft hright start
  simp only [Chain.operation, operand, span, hstop, tree]

/-- The two passes join the chain of a phrase as the phrase is built. -/
theorem operand_chain (p : Phrase k) (buffer : Text) (start : Nat) :
    (p.chain buffer start).operand buffer = p.operand buffer start := by
  induction p generalizing start with
  | leaf l hl => rfl
  | pair inside ih => rfl
  | operation op left before after right hleft hright ihl ihr =>
      rw [← operation_operand, ← ihl, ← ihr]
      cases hop : op.isMultiplicative with
      | true =>
          have hone : op.looseness = 1 := by
            cases op <;> first | rfl | cases hop
          apply Chain.operand_join_multiplicative hop
          · exact left.links_chain_of_product (by omega) start
          · exact right.links_chain_of_tight (by omega) _
      | false =>
          have htwo : op.looseness = 2 := by
            cases op <;> first | rfl | cases hop
          apply Chain.operand_join_additive hop
          exact right.links_chain_of_product (by omega) _
  | sole before l after => rfl
  | compound before inner after hkind hcontent ih => rfl

/-- **Precedence.**  The items of a phrase are joined to its tree. -/
theorem treeOf_items (p : Phrase k) (contentStart start : Nat) :
    Chain.treeOf buffer contentStart (p.items buffer start) = .ok (p.tree buffer start) := by
  have hoperand := congrArg Operand.tree (p.operand_chain buffer start)
  rw [Chain.treeOf, ofItems_items]
  exact congrArg Except.ok hoperand

/-- A phrase goes on with an operator and another operand.  If the operator binds more tightly than the
phrase holds together, it takes the right operand of the phrase only. -/
theorem exists_attach {j : Kind} (buffer : Text) (p : Phrase k) (hk : k ≠ .content)
    (before : Layout) (op : Operator) (after : Layout) (a : Phrase j) (ha : j.looseness = 0) :
    ∃ (k' : Kind) (p' : Phrase k'), k' ≠ .content ∧
      p'.text = p.text ++ before.text ++ op.symbol :: (after.text ++ a.text) ∧
      p'.nesting = max p.nesting a.nesting ∧
      ∀ start, p'.items buffer start = p.items buffer start ++
        [.operator op (start + p.text.length + before.text.length),
          .operand (a.operand buffer (p.rightStart before after start))] := by
  have hpos : 0 < op.looseness := by cases op <;> decide
  by_cases hloose : k.looseness ≤ op.looseness
  · refine ⟨_, operation op p before after a hloose (by omega), by simp, rfl, rfl, ?_⟩
    intro start
    rw [items, a.items_tight ha]
  · -- The phrase is a sum and the operator is multiplicative, so only the last term takes part.
    cases p with
    | leaf l hl => exact absurd (Nat.zero_le _) hloose
    | pair inside => exact absurd (Nat.zero_le _) hloose
    | @operation i j' op' left before' after' right hleft hright =>
        have hloose : ¬ op'.looseness ≤ op.looseness := hloose
        have hone : op.looseness = 1 ∧ op'.looseness = 2 := by
          cases op <;> cases op' <;> simp [Operator.looseness] at hloose ⊢
        have hright' : (Kind.operation op).looseness < op'.looseness := by
          rw [Kind.looseness]
          omega
        refine ⟨_, operation op' left before' after'
          (operation op right before after a (by omega) (by omega)) hleft hright', by simp, ?_, ?_,
          ?_⟩
        · simp [text]
        · simp only [nesting]
          omega
        · intro start
          have hstop := rightStart_add_length op' left before' after' right hleft hright start
          simp only [items, rightStart, a.items_tight ha, List.append_assoc, List.cons_append]
          rw [rightStart] at hstop
          rw [hstop]
    | sole before' l after' => exact absurd rfl hk
    | compound before' inner after' hkind hcontent => exact absurd rfl hk

/-- Where the items go on with an operator and an operand, so does the chain. -/
theorem chain_of_items_append {k' : Kind} {p : Phrase k} {p' : Phrase k'} {start position : Nat}
    {op : Operator} {o : Operand}
    (h : p'.items buffer start = p.items buffer start ++ [.operator op position, .operand o]) :
    p'.chain buffer start = (p.chain buffer start).join op ⟨o, []⟩ := by
  have hitems : Chain.ofItems 0 (p.items buffer start) = .ok (p.chain buffer start) :=
    p.ofItems_items 0 start
  have hoperand : Chain.ofItems 0 [.operand o] = .ok ⟨o, []⟩ := rfl
  have hlonger : Chain.ofItems 0 (p'.items buffer start) =
      .ok ((p.chain buffer start).join op ⟨o, []⟩) := h ▸ Chain.ofItems_append hitems hoperand position
  rw [p'.ofItems_items] at hlonger
  exact Except.ok.inj hlonger

/-- The text, which starts at the position, is written with the items: operands that are leaves or
bracket pairs, operators, and layout anywhere.  Every operand has fewer than `n` levels. -/
inductive Spelled (buffer : Text) (n : Nat) : Nat → Text → List Item → Prop where
  | nil {start : Nat} (w : Layout) : Spelled buffer n start w.text []
  | operand {start : Nat} (w : Layout) {k : Kind} (a : Phrase k) (ha : k.looseness = 0)
      (hn : a.nesting < n) {t : Text} {items : List Item}
      (h : Spelled buffer n (start + w.text.length + a.text.length) t items) :
      Spelled buffer n start (w.text ++ a.text ++ t)
        (.operand (a.operand buffer (start + w.text.length)) :: items)
  | operator {start : Nat} (w : Layout) (op : Operator) {t : Text} {items : List Item}
      (h : Spelled buffer n (start + w.text.length + 1) t items) :
      Spelled buffer n start (w.text ++ op.symbol :: t)
        (.operator op (start + w.text.length) :: items)

/-- Layout may be added in front. -/
theorem Spelled.blank_append {n start : Nat} {t : Text} {items : List Item} (w : Layout)
    (h : Spelled buffer n (start + w.text.length) t items) :
    Spelled buffer n start (w.text ++ t) items := by
  have hlength : ∀ v : Layout, start + w.text.length + v.text.length =
      start + (w.append v).text.length := by
    intro v
    rw [Layout.append, List.length_append]
    omega
  cases h with
  | nil v => exact .nil (w.append v)
  | operand v a ha hn h =>
      rw [hlength] at h ⊢
      have hoperand := Spelled.operand (w.append v) a ha hn h
      simpa [Layout.append] using hoperand
  | operator v op h =>
      rw [hlength] at h ⊢
      have hoperator := Spelled.operator (w.append v) op h
      simpa [Layout.append] using hoperator

/-- Operators with their operands behind a phrase make a longer phrase. -/
theorem exists_of_linksOf {n start : Nat} {p : Phrase k} (hk : k ≠ .content) (hn : p.nesting < n)
    {t : Text} {more : List Item} {links : List (Operator × Operand)}
    (hspelled : Spelled buffer n (start + p.text.length) t more)
    (hlinks : Chain.linksOf more = .ok links) :
    ∃ (k' : Kind) (p' : Phrase k') (w : Layout), k' ≠ .content ∧ p'.nesting < n ∧
      p.text ++ t = p'.text ++ w.text ∧
      p'.items buffer start = p.items buffer start ++ more := by
  induction more using Chain.linksOf.induct generalizing k t links with
  | case1 =>
      cases hspelled with
      | nil w => exact ⟨k, p, w, hk, hn, rfl, (List.append_nil _).symm⟩
  | case2 o items => cases hlinks
  | case3 op position => cases hlinks
  | case4 op position next position' items => cases hlinks
  | case5 op position o items links' hlinks' ih =>
      cases hspelled with
      | operator before op hspelled =>
          cases hspelled with
          | operand after a ha hna hspelled =>
              obtain ⟨k', p', hk', htext, hnesting, hitems⟩ :=
                exists_attach buffer p hk before op after a ha
              have hstop : start + p.text.length + before.text.length + 1 + after.text.length +
                  a.text.length = start + p'.text.length := by
                simp only [htext, List.length_append, List.length_cons]
                omega
              rw [hstop] at hspelled
              obtain ⟨k'', p'', w, hk'', hn'', htext'', hitems''⟩ :=
                ih hk' (by omega) hspelled hlinks'
              refine ⟨k'', p'', w, hk'', hn'', ?_, ?_⟩
              · rw [← htext'', htext]
                simp
              · rw [hitems'', hitems, rightStart]
                simp
  | case6 op position o items e he ih => simp [Chain.linksOf, he] at hlinks

/-- A text that is written with the items of a chain is a phrase between layout. -/
theorem exists_of_ofItems {n start contentStart : Nat} {t : Text} {more : List Item} {c : Chain}
    (hspelled : Spelled buffer n start t more) (hc : Chain.ofItems contentStart more = .ok c) :
    ∃ (k : Kind) (w : Layout) (p : Phrase k) (w' : Layout), k ≠ .content ∧ p.nesting < n ∧
      t = w.text ++ p.text ++ w'.text ∧ more = p.items buffer (start + w.text.length) := by
  cases hspelled with
  | nil w => cases hc
  | operator w op h => cases hc
  | @operand _ w k a ha hn t items h =>
      have hk : k ≠ .content := by
        rintro rfl
        cases ha
      simp only [Chain.ofItems] at hc
      cases hlinks : Chain.linksOf items with
      | error e => simp [hlinks] at hc
      | ok links =>
          obtain ⟨k', p, w', hk', hn', htext, hitems⟩ := exists_of_linksOf hk hn h hlinks
          refine ⟨k', w, p, w', hk', hn', ?_, ?_⟩
          · rw [List.append_assoc, htext, List.append_assoc]
          · rw [hitems, a.items_tight ha]
            rfl

end Phrase

end InfixFormula

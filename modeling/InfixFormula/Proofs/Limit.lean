import InfixFormula.Proofs.TokenLevels

/-!
# The limit of nesting

The limit does nothing but stop a reading that goes deeper.  `Extends limit o o'` says of two outcomes that
the first is the error of the limit, or they are the same.  What holds of the readings of the next level
holds of the reading of a level (`Reader.extends_itemsFrom`), and so, from the deepest level up, of the
reading of a text under two limits (`Formula.extends_parse`).

Which limits a text needs can be told from the text.  One that is read under some limit is read under just
those that are no less than the greatest level of its tokens, with the same formula, and meets all others
(`Formula.parse_limit`).
-/

namespace InfixFormula

/-- The outcome under the limit is that the limit was met, or it is the other outcome. -/
def Extends {α : Type} (limit : Nat) (o o' : Except Error α) : Prop :=
  o = .error (.tooDeep limit .parsing) ∨ o' = o

theorem Extends.refl {α : Type} {limit : Nat} (o : Except Error α) : Extends limit o o := .inr rfl

namespace Reader

variable {limit limit' : Nat}

section Items

variable {below below' : Nat → Text → Except Error Operand}

/-- An operand is read alike under a larger limit, if the reader below does so. -/
theorem extends_operandBetween (h : ∀ position u, Extends limit (below position u) (below' position u))
    (mark : Nat) (t : Text) :
    Extends limit (operandBetween below mark t) (operandBetween below' mark t) := by
  unfold operandBetween
  split
  · exact .refl _
  · rcases h mark t with hdeep | hsame
    · exact .inl (by rw [hdeep])
    · rw [hsame]
      exact .refl _

/-- What is extended on the next level is extended on this one. -/
theorem extends_itemsFrom (h : ∀ position u, Extends limit (below position u) (below' position u))
    (mark : Nat) (pending : Text) (position : Nat) (rest : Text) :
    Extends limit (itemsFrom below mark pending position rest)
      (itemsFrom below' mark pending position rest) := by
  have hpending := extends_operandBetween h mark pending.reverse
  cases rest with
  | nil =>
      rw [itemsFrom_nil, itemsFrom_nil]
      exact hpending
  | cons c tail =>
      rcases Literal.eq_bracket_or_symbol_or_other c with rfl | rfl | ⟨op, rfl⟩ | hc
      · rw [itemsFrom_opening, itemsFrom_opening]
        rcases hpending with hdeep | hsame
        · exact .inl (by rw [hdeep])
        · rw [hsame]
          cases operandBetween below mark pending.reverse with
          | error e => exact .refl _
          | ok new =>
              cases Bracket.closingOffset? 0 tail with
              | none => exact .refl _
              | some k =>
                  dsimp only
                  rcases h (position + 1) (tail.take k) with hdeep | hsame
                  · exact .inl (by rw [hdeep])
                  · rw [hsame]
                    cases below (position + 1) (tail.take k) with
                    | error e => exact .refl _
                    | ok o =>
                        dsimp only
                        rcases extends_itemsFrom h (position + k + 2) [] (position + k + 2)
                          (tail.drop (k + 1)) with hdeep | hsame
                        · exact .inl (by rw [hdeep])
                        · rw [hsame]
                          exact .refl _
      · rw [itemsFrom_closing, itemsFrom_closing]
        exact .refl _
      · rw [itemsFrom_operator, itemsFrom_operator]
        rcases hpending with hdeep | hsame
        · exact .inl (by rw [hdeep])
        · rw [hsame]
          cases operandBetween below mark pending.reverse with
          | error e => exact .refl _
          | ok new =>
              dsimp only
              rcases extends_itemsFrom h (position + 1) [] (position + 1) tail with hdeep | hsame
              · exact .inl (by rw [hdeep])
              · rw [hsame]
                exact .refl _
      · rw [itemsFrom_other _ _ _ _ _ hc, itemsFrom_other _ _ _ _ _ hc]
        exact extends_itemsFrom h _ _ _ _
termination_by rest.length

end Items

/-- Looking at a piece meets the limit by its own level only. -/
theorem extends_piece (hle : limit ≤ limit') (buffer : Text) (depth start : Nat) (t : Text) :
    Extends limit (piece ⟨limit, buffer⟩ depth start t) (piece ⟨limit', buffer⟩ depth start t) := by
  by_cases hdepth : limit < depth
  · exact .inl (if_pos hdepth)
  · have hdepth' : ¬ limit' < depth := by omega
    rw [piece, piece, if_neg hdepth, if_neg hdepth']
    exact .refl _

/-- A larger limit changes nothing in a descent that does not meet the smaller one. -/
theorem extends_descend (hle : limit ≤ limit') (buffer : Text) (depth start : Nat) (t : Text) :
    Extends limit (descend ⟨limit, buffer⟩ depth start t) (descend ⟨limit', buffer⟩ depth start t) := by
  rcases extends_piece hle buffer depth start t with hpiece | hpiece
  · exact .inl (descend_of_error hpiece)
  · cases hp : piece ⟨limit, buffer⟩ depth start t with
    | error e =>
        rw [descend_of_error hp, descend_of_error (hpiece.trans hp)]
        exact .refl _
    | ok p =>
        have hdepth : depth ≤ limit := depth_le_of_piece hp
        cases p with
        | leaf o =>
            rw [descend_of_leaf hp, descend_of_leaf (hpiece.trans hp)]
            exact .refl _
        | compound contents range =>
            rw [descend_of_compound hp, descend_of_compound (hpiece.trans hp)]
            rcases extends_itemsFrom (fun position u => extends_descend hle buffer (depth + 1) position u)
              range.start [] range.start contents with hdeep | hsame
            · exact .inl (by rw [hdeep])
            · rw [hsame]
              exact .refl _
termination_by limit + 1 - depth

end Reader

theorem Tree.extends_parse {limit limit' : Nat} (hle : limit ≤ limit') (text : Text) :
    Extends limit (Tree.parse limit text) (Tree.parse limit' text) := by
  rw [Tree.parse, Tree.parse, Reader.tree_eq_descend, Reader.tree_eq_descend]
  rcases Reader.extends_descend hle (Bracket.ascii text) 0 0 (Bracket.ascii text) with h | h
  · exact .inl (by rw [h]; rfl)
  · exact .inr (by rw [h])

/-- A formula that is read without meeting the limit is read alike under every larger one. -/
theorem Formula.extends_parse {limit limit' : Nat} (hle : limit ≤ limit') (text : Text) :
    Extends limit (Formula.parse limit text) (Formula.parse limit' text) := by
  rw [Formula.parse, Formula.parse]
  rcases Tree.extends_parse hle text with h | h
  · exact .inl (by rw [h])
  · exact .inr (by rw [h])

/-- Raising the limit changes no outcome but the one that says it was too small. -/
theorem Formula.parse_eq_of_le {limit limit' : Nat} {text : Text}
    (h : Formula.parse limit text ≠ .error (.tooDeep limit .parsing)) (hle : limit ≤ limit') :
    Formula.parse limit' text = Formula.parse limit text :=
  (Formula.extends_parse hle text).resolve_left h

/-- Whoever read the text, the nesting is the greatest level of its tokens. -/
theorem Formula.exists_nesting {limit : Nat} {text : Text} {f : Formula}
    (h : Formula.parse limit text = .ok f) :
    ∃ depth ≤ limit, IsGreatest (Text.tokenLevels (Bracket.ascii text)) depth ∧
      ∀ limit', depth ≤ limit' → Formula.parse limit' text = .ok f := by
  obtain ⟨hparse, htext, hmapping⟩ := Formula.parse_eq_ok_iff.mp h
  obtain ⟨c, hc, hnesting, htree⟩ := Tree.parse_eq_ok_iff.mp hparse
  refine ⟨c.nesting, hnesting, hc ▸ c.isGreatest_tokenLevels, ?_⟩
  intro limit' hle
  exact Formula.parse_eq_ok_iff.mpr ⟨Tree.parse_eq_ok_iff.mpr ⟨c, hc, hle, htree⟩, htext, hmapping⟩

/-- **The limit is exact, and does nothing else.**  An outcome that is not the error of the limit is the
outcome under every greater limit.  A text that is read at all is read, as the same formula, under all
limits that are no less than the greatest level of its tokens, and under no others. -/
theorem Formula.parse_limit (text : Text) :
    (∀ limit, Formula.parse limit text ≠ .error (.tooDeep limit .parsing) →
        ∀ limit', limit ≤ limit' → Formula.parse limit' text = Formula.parse limit text) ∧
      ∀ limit f, Formula.parse limit text = .ok f →
        ∃ depth, IsGreatest (Text.tokenLevels (Bracket.ascii text)) depth ∧
          ∀ limit', (depth ≤ limit' → Formula.parse limit' text = .ok f) ∧
            (limit' < depth → Formula.parse limit' text = .error (.tooDeep limit' .parsing)) := by
  refine ⟨fun limit h limit' hle => Formula.parse_eq_of_le h hle, ?_⟩
  intro limit f hread
  obtain ⟨depth, hdepth, hgreatest, henough⟩ := Formula.exists_nesting hread
  refine ⟨depth, hgreatest, fun limit' => ⟨henough limit', ?_⟩⟩
  intro hlt
  by_contra hmet
  have hsame := Formula.parse_eq_of_le hmet (Nat.le_trans (Nat.le_of_lt hlt) hdepth)
  obtain ⟨depth', hle, hgreatest', -⟩ := Formula.exists_nesting (hsame.symm.trans hread)
  have heq : depth' = depth := hgreatest'.unique hgreatest
  omega

/-- The least limit of the sample is 2: it is read alike under 2 and 7, and too deep under 1. -/
theorem Formula.parse_limit_sample :
    ∃ f, IsGreatest (Text.tokenLevels (Bracket.ascii "（1 + x） * 2%".toList)) 2 ∧
      Formula.parse 2 "（1 + x） * 2%".toList = .ok f ∧
      Formula.parse 7 "（1 + x） * 2%".toList = .ok f ∧
      Formula.parse 1 "（1 + x） * 2%".toList = .error (.tooDeep 1 .parsing) := by
  obtain ⟨f, hf⟩ := Formula.exists_parse_sample
  obtain ⟨depth, hgreatest, hlimit⟩ := (Formula.parse_limit "（1 + x） * 2%".toList).2 2 f hf
  have hsample : IsGreatest (Text.tokenLevels (Bracket.ascii "（1 + x） * 2%".toList)) 2 :=
    Phrase.sample.isGreatest_tokenLevels
  obtain rfl : depth = 2 := hgreatest.unique hsample
  exact ⟨f, hsample, hf, (hlimit 7).1 (by decide), (hlimit 1).2 (by decide)⟩

end InfixFormula

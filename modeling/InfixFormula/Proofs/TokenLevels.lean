import Mathlib.Order.Bounds.Basic
import InfixFormula.Proofs.Faults
import InfixFormula.Proofs.Names

/-!
# The levels of the tokens of a text

The level of a token is seen in the text alone: the number of bracket pairs around it, and one more where
it is not alone between the brackets next to it, or in the text (`Text.tokenLevels`).  Reading a token
that is not alone costs a level, since it is cut out of its bracket content.

The nesting of a phrase is the greatest level of the tokens in its text (`Phrase.isGreatest_tokenLevels`).
The induction on the phrase looks at its tokens where they stand, between what goes before the phrase and
what follows it.  Texts are cut at the brackets and operators (`levels_append_cons`), and the brackets
around a content hide what is outside of them (`cost_between_brackets`).

How many pairs there are around a position is counted in the pairing of the whole text.  In a balanced text
it is the number of brackets that are open there (`enclosing_of_depthBehind?`).
-/

namespace InfixFormula

open InfixFormula.Bracket

/-- Whether the pair opens before the position and closes there or behind it. -/
def Bracket.isAround (position : Nat) (p : Nat × Nat) : Bool :=
  decide (p.1 < position) && decide (position ≤ p.2)

namespace Text

/-- The text is cut around a stretch without layout, brackets and operators that is as long as it can
be. -/
structure IsRun (t before run after : Text) : Prop where
  cut : t = before ++ run ++ after
  ne_nil : run ≠ []
  inner : ∀ c ∈ run, isBoundary c = false
  left : ∀ c ∈ before.getLast?, isBoundary c = true
  right : ∀ c ∈ after.head?, isBoundary c = true

/-- The token between the two texts is all that stands between two brackets, or in the whole text, apart
from layout.  A minus sign right in front of such a token belongs to it. -/
def IsAlone (before after : Text) : Prop :=
  (before.OpensLevel ∨ before.getLast? = some '-' ∧ OpensLevel before.dropLast) ∧ after.ClosesLevel

instance (before after : Text) : Decidable (IsAlone before after) :=
  inferInstanceAs (Decidable (((_ = _ ∨ _ = _) ∨ _ ∧ (_ = _ ∨ _ = _)) ∧ (_ = _ ∨ _ = _)))

/-- What it costs to cut the token out of its bracket content. -/
def cost (before after : Text) : Nat := if IsAlone before after then 0 else 1

/-- The number of bracket pairs of the text around the position. -/
def enclosing (t : Text) (position : Nat) : Nat := (pairs t).countP (isAround position)

/-- The levels of the tokens of the text. -/
def tokenLevels (t : Text) : Set Nat :=
  {n | ∃ before run after, t.IsRun before run after ∧
    n = t.enclosing before.length + cost before after}

/-! ## Tokens and cuts -/

/-- A stretch that lacks a character lies on one side of it. -/
theorem exists_eq_append_of_not_mem {s t before run after : Text} {c : Char} (hc : c ∉ run)
    (h : s ++ c :: t = before ++ run ++ after) :
    (∃ a, after = a ++ c :: t ∧ s = before ++ run ++ a) ∨
      ∃ b, before = s ++ c :: b ∧ t = b ++ run ++ after := by
  rcases List.append_eq_append_iff.mp h with ⟨u, hu, ht⟩ | ⟨a, rfl, rfl⟩
  · rcases List.cons_eq_append_iff.mp ht with ⟨rfl, rfl⟩ | ⟨u, rfl, rfl⟩
    · exact .inl ⟨[], rfl, by simpa using hu.symm⟩
    · rcases List.append_eq_append_iff.mp hu with ⟨v, -, rfl⟩ | ⟨v, rfl, hv⟩
      · exact absurd (List.mem_append_cons_self) hc
      · rcases List.cons_eq_append_iff.mp hv with ⟨-, rfl⟩ | ⟨v, rfl, rfl⟩
        · exact absurd List.mem_cons_self hc
        · exact .inr ⟨v, rfl, rfl⟩
  · exact .inl ⟨a, rfl, rfl⟩

/-- A token does not reach over a boundary. -/
theorem isRun_append_cons {s t before run after : Text} {c : Char} (hc : isBoundary c = true) :
    IsRun (s ++ c :: t) before run after ↔
      (∃ a, after = a ++ c :: t ∧ s.IsRun before run a) ∨
        ∃ b, before = s ++ c :: b ∧ t.IsRun b run after := by
  constructor
  · rintro ⟨hcut, hne, hinner, hleft, hright⟩
    have hrun : c ∉ run := by
      intro hmem
      rw [hinner c hmem] at hc
      cases hc
    rcases exists_eq_append_of_not_mem hrun hcut with ⟨a, rfl, rfl⟩ | ⟨b, rfl, rfl⟩
    · refine .inl ⟨a, rfl, rfl, hne, hinner, hleft, ?_⟩
      cases a with
      | nil => simp
      | cons d a => exact hright
    · refine .inr ⟨b, rfl, rfl, hne, hinner, ?_, hright⟩
      intro d hd
      apply hleft
      rw [List.getLast?_append, List.getLast?_cons, hd]
      rfl
  · rintro (⟨a, rfl, rfl, hne, hinner, hleft, hright⟩ | ⟨b, rfl, rfl, hne, hinner, hleft, hright⟩)
    · refine ⟨by simp, hne, hinner, hleft, ?_⟩
      cases a with
      | nil => simpa using hc
      | cons d a => exact hright
    · refine ⟨by simp, hne, hinner, ?_, hright⟩
      intro d hd
      rw [List.getLast?_append, List.getLast?_cons] at hd
      cases hlast : b.getLast? with
      | none =>
          obtain rfl : c = d := by simpa [hlast] using hd
          exact hc
      | some e =>
          obtain rfl : e = d := by simpa [hlast] using hd
          exact hleft e hlast

/-- There is no token in layout. -/
theorem not_isRun_of_isBlank {w before run after : Text} (hw : w.isBlank = true) :
    ¬ w.IsRun before run after := by
  rintro ⟨rfl, hne, hinner, -, -⟩
  obtain ⟨c, hc⟩ := List.exists_mem_of_ne_nil run hne
  have hlayout : isLayout c = true := List.all_eq_true.mp hw c (by simp [hc])
  have hboundary := hinner c hc
  rw [isBoundary, hlayout] at hboundary
  cases hboundary

/-- A stretch of the right characters is a single token. -/
theorem isRun_iff_of_forall {u before run after : Text} (hne : u ≠ [])
    (hu : ∀ c ∈ u, isBoundary c = false) :
    u.IsRun before run after ↔ before = [] ∧ run = u ∧ after = [] := by
  constructor
  · rintro ⟨rfl, -, -, hleft, hright⟩
    have hbefore : before = [] := by
      rcases List.eq_nil_or_concat before with h | ⟨b, c, rfl⟩
      · exact h
      · have hc := hleft c (by simp)
        rw [hu c (by simp)] at hc
        cases hc
    have hafter : after = [] := by
      cases after with
      | nil => rfl
      | cons c a =>
          have hc := hright c rfl
          rw [hu c (by simp)] at hc
          cases hc
    subst hbefore hafter
    exact ⟨rfl, by simp, rfl⟩
  · rintro ⟨rfl, rfl, rfl⟩
    exact ⟨by simp, hne, hu, by simp, by simp⟩

/-! ## Levels where a stretch stands -/

/-- The levels of the tokens of the stretch `s` between `x` and `y`, where `m` brackets are open in front
of it. -/
def levels (m : Nat) (x s y : Text) : Set Nat :=
  {n | ∃ before run after d, s.IsRun before run after ∧ depthBehind? m before = some d ∧
    n = d + cost (x ++ before) (after ++ y)}

section Levels

variable {m : Nat} {x s t y : Text}

/-- At a boundary, the tokens are those on the left of it and those on the right of it. -/
theorem levels_append_cons {m' : Nat} {c : Char} (hc : isBoundary c = true)
    (hm : depthBehind? m (s ++ [c]) = some m') :
    levels m x (s ++ c :: t) y =
      levels m x s (c :: (t ++ y)) ∪ levels m' (x ++ (s ++ [c])) t y := by
  have hbehind : ∀ b, depthBehind? m (s ++ c :: b) = depthBehind? m' b := by
    intro b
    rw [List.append_cons, depthBehind?_append, hm]
    rfl
  ext n
  constructor
  · rintro ⟨before, run, after, d, hrun, hd, rfl⟩
    rcases (isRun_append_cons hc).mp hrun with ⟨a, rfl, hleft⟩ | ⟨b, rfl, hright⟩
    · exact .inl ⟨before, run, a, d, hleft, hd, by simp⟩
    · exact .inr ⟨b, run, after, d, hright, (hbehind b).symm.trans hd, by simp⟩
  · rintro (⟨before, run, a, d, hrun, hd, rfl⟩ | ⟨b, run, after, d, hrun, hd, rfl⟩)
    · exact ⟨before, run, a ++ c :: t, d, (isRun_append_cons hc).mpr (.inl ⟨a, rfl, hrun⟩), hd, by simp⟩
    · exact ⟨s ++ c :: b, run, after, d, (isRun_append_cons hc).mpr (.inr ⟨b, rfl, hrun⟩),
        (hbehind b).trans hd, by simp⟩

/-- Layout holds no tokens. -/
theorem levels_of_isBlank {w : Text} (hw : w.isBlank = true) : levels m x w y = ∅ := by
  rw [Set.eq_empty_iff_forall_notMem]
  rintro n ⟨before, run, after, d, hrun, -⟩
  exact not_isRun_of_isBlank hw hrun

theorem levels_nil : levels m x [] y = ∅ := levels_of_isBlank rfl

/-- Layout in front of a stretch counts as what stands in front of it. -/
theorem levels_blank_append {w : Text} (hw : w.isBlank = true) :
    levels m x (w ++ s) y = levels m (x ++ w) s y := by
  rcases List.eq_nil_or_concat w with rfl | ⟨v, c, rfl⟩
  · rw [List.nil_append, List.append_nil]
  · rw [List.concat_eq_append] at hw ⊢
    obtain ⟨hv, hc⟩ : isBlank v = true ∧ isLayout c = true := by simpa [isBlank] using hw
    have hdepth := depthBehind?_eq_some (isBalanced_of_isBlank hw) m
    rw [List.append_assoc, List.singleton_append,
      levels_append_cons (isBoundary_of_isLayout hc) hdepth, levels_of_isBlank hv, Set.empty_union]

/-- Layout behind a stretch counts as what stands behind it. -/
theorem levels_append_blank {w : Text} (hs : isBalanced 0 s = true) (hw : w.isBlank = true) :
    levels m x (s ++ w) y = levels m x s (w ++ y) := by
  cases w with
  | nil => rw [List.append_nil, List.nil_append]
  | cons c v =>
      obtain ⟨hc, hv⟩ : isLayout c = true ∧ isBlank v = true := by simpa [isBlank] using hw
      have hdepth : depthBehind? m (s ++ [c]) = some m := by
        rw [depthBehind?_balanced hs]
        exact depthBehind?_eq_some (isBalanced_of_isBlank (by simpa [isBlank] using hc)) m
      rw [levels_append_cons (isBoundary_of_isLayout hc) hdepth, levels_of_isBlank hv, Set.union_empty,
        List.cons_append]

/-- Layout around a stretch that is all there is. -/
theorem levels_between (w w' : Layout) (hs : isBalanced 0 s = true) :
    levels m [] (w.text ++ s ++ w'.text) [] = levels m w.text s w'.text := by
  have hbalanced : isBalanced 0 (w.text ++ s) = true := by
    rwa [isBalanced_balanced_append (isBalanced_of_isBlank w.blank)]
  rw [levels_append_blank hbalanced w'.blank, levels_blank_append w.blank, List.nil_append,
    List.append_nil]

/-- A stretch of the right characters has its own level. -/
theorem levels_of_forall {u : Text} (hne : u ≠ []) (hu : ∀ c ∈ u, isBoundary c = false) :
    levels m x u y = {m + cost x y} := by
  ext n
  constructor
  · rintro ⟨before, run, after, d, hrun, hd, rfl⟩
    obtain ⟨rfl, rfl, rfl⟩ := (isRun_iff_of_forall hne hu).mp hrun
    obtain rfl : m = d := Option.some.inj hd
    simp
  · rintro rfl
    exact ⟨[], u, [], m, (isRun_iff_of_forall hne hu).mpr ⟨rfl, rfl, rfl⟩, rfl, by simp⟩

end Levels

/-! ## What a token costs -/

/-- The last visible character is that of the second text, unless it is blank. -/
theorem lastVisible?_append_or (t u : Text) :
    lastVisible? (t ++ u) = u.lastVisible?.or t.lastVisible? := by
  rw [lastVisible?, List.reverse_append, firstVisible?, List.find?_append]
  rfl

/-- The first visible character is that of the first text, unless it is blank. -/
theorem firstVisible?_append_or (t u : Text) :
    firstVisible? (t ++ u) = t.firstVisible?.or u.firstVisible? := List.find?_append

/-- Behind an opening bracket, a level starts if nothing but layout has followed. -/
theorem opensLevel_append_opening (x b : Text) : OpensLevel (x ++ '(' :: b) ↔ b.OpensLevel := by
  rw [List.append_cons, OpensLevel, lastVisible?_append_or, lastVisible?_concat rfl, OpensLevel]
  cases b.lastVisible? <;> simp

/-- Before a closing bracket, a level ends if nothing but layout comes first. -/
theorem closesLevel_append_closing (a y : Text) : ClosesLevel (a ++ ')' :: y) ↔ a.ClosesLevel := by
  rw [ClosesLevel, firstVisible?_append_or, firstVisible?_cons rfl, ClosesLevel]
  cases a.firstVisible? <;> simp

/-- Between brackets it does not matter what is outside. -/
theorem cost_between_brackets (x b a y : Text) :
    cost (x ++ '(' :: b) (a ++ ')' :: y) = cost b a := by
  have hsign : (x ++ '(' :: b).getLast? = some '-' ∧ OpensLevel (x ++ '(' :: b).dropLast ↔
      b.getLast? = some '-' ∧ OpensLevel b.dropLast := by
    rcases List.eq_nil_or_concat b with rfl | ⟨v, c, rfl⟩
    · simp
    · have hlast : x ++ '(' :: (v.concat c) = (x ++ '(' :: v) ++ [c] := by simp
      rw [hlast, List.getLast?_concat, List.dropLast_concat, opensLevel_append_opening,
        List.concat_eq_append, List.getLast?_concat, List.dropLast_concat]
  have halone : IsAlone (x ++ '(' :: b) (a ++ ')' :: y) ↔ IsAlone b a := by
    rw [IsAlone, opensLevel_append_opening, hsign, closesLevel_append_closing, IsAlone]
  rw [cost, cost, if_congr halone rfl rfl]

/-- A token that something follows at its level has to be cut out. -/
theorem cost_of_not_closesLevel {x y : Text} (h : ¬ y.ClosesLevel) : cost x y = 1 :=
  if_neg (fun halone => h halone.2)

/-- Behind an operator that has a left operand no token is alone. -/
theorem cost_behind_symbol {x w : Text} (op : Operator) (hx : ¬ x.OpensLevel) (hw : w.isBlank = true)
    (y : Text) : cost (x ++ op.symbol :: w) y = 1 := by
  refine if_neg ?_
  rintro ⟨hopens | ⟨hsign, hopens⟩, -⟩
  · rw [List.append_cons, OpensLevel, lastVisible?_append hw, lastVisible?_concat op.isLayout_symbol]
      at hopens
    cases op <;> simp [Operator.symbol] at hopens
  · rcases List.eq_nil_or_concat w with rfl | ⟨v, c, rfl⟩
    · rw [List.dropLast_concat] at hopens
      exact hx hopens
    · rw [List.concat_eq_append, ← List.cons_append, ← List.append_assoc, List.getLast?_concat] at hsign
      obtain rfl : c = '-' := Option.some.inj hsign
      rw [List.concat_eq_append] at hw
      simp [isBlank, isLayout] at hw

/-- A token alone between layout costs nothing, nor does one with a minus sign. -/
theorem cost_between (w w' : Layout) :
    cost w.text w'.text = 0 ∧ cost (w.text ++ ['-']) w'.text = 0 := by
  have hopens : w.text.OpensLevel := .inl (lastVisible?_append w.blank [])
  have hcloses : w'.text.ClosesLevel := by
    have hvisible := firstVisible?_append w'.blank []
    rw [List.append_nil] at hvisible
    exact .inl hvisible
  refine ⟨if_pos ⟨.inl hopens, hcloses⟩, if_pos ⟨.inr ⟨List.getLast?_concat, ?_⟩, hcloses⟩⟩
  rwa [List.dropLast_concat]

/-- Inside a bracket pair the tokens lie one bracket deeper, and see nothing of what is outside. -/
theorem levels_pair {m : Nat} {x inside y : Text} (h : isBalanced 0 inside = true) :
    levels m x ('(' :: (inside ++ [')'])) y = levels (m + 1) [] inside [] := by
  have hopening : levels m x ('(' :: (inside ++ [')'])) y =
      levels (m + 1) (x ++ ['(']) (inside ++ [')']) y := by
    have hcut := levels_append_cons (x := x) (s := []) (t := inside ++ [')']) (y := y) (c := '(') rfl
      (depthBehind?_opening m [])
    rw [levels_nil, Set.empty_union] at hcut
    exact hcut
  have hdepth : depthBehind? (m + 1) (inside ++ [')']) = some m := by
    rw [depthBehind?_balanced h]
    rfl
  have hclosing := levels_append_cons (x := x ++ ['(']) (s := inside) (t := []) (y := y) (c := ')') rfl
    hdepth
  rw [levels_nil, Set.union_empty] at hclosing
  rw [hopening, hclosing]
  ext n
  have hcost : ∀ b a, cost (x ++ ['('] ++ b) (a ++ ')' :: ([] ++ y)) = cost ([] ++ b) (a ++ []) := by
    intro b a
    simpa using cost_between_brackets x b a y
  simp only [levels, hcost]

end Text

open Text

/-- A leaf is one token, if a sign counts as what stands in front of it. -/
theorem Leaf.levels_text (l : Leaf) (m : Nat) (x y : Text) :
    levels m x l.text y = {m + cost (x ++ if l.isSigned then ['-'] else []) y} := by
  have hbody : ∀ c ∈ l.body, isBoundary c = false := by
    intro c hc
    rw [isBoundary, (Leaf.mem_body hc).1, (Leaf.mem_body hc).2]
    rfl
  rw [l.text_eq]
  split
  · have hcut := levels_append_cons (m := m) (x := x) (s := []) (t := l.body) (y := y) (c := '-') rfl rfl
    rw [levels_nil, Set.empty_union, levels_of_forall l.body_ne_nil hbody] at hcut
    exact hcut
  · rw [levels_of_forall l.body_ne_nil hbody, List.append_nil]

namespace Phrase

/-- What is no content ends with a character of a leaf, or with a closing bracket. -/
theorem getLast?_text_ne_opening {k : Kind} (p : Phrase k) (hk : k ≠ .content) :
    p.text.getLast? ≠ some '(' := by
  induction p with
  | leaf l hl =>
      intro hlast
      have hplain : l.text.any Literal.isDelimiter = false := l.any_isDelimiter_text.trans hl
      exact List.any_eq_false.mp hplain _ (List.mem_of_mem_getLast? hlast) rfl
  | pair inside ih =>
      rw [inside.getLast?_text_pair]
      decide
  | operation op left before after right hleft hright ihl ihr =>
      have hkind := Kind.ne_content_of_le (Nat.le_of_lt hright)
      rw [text, ← List.cons_append, ← List.append_assoc,
        List.getLast?_append_of_ne_nil _ (right.isTight_text hkind).ne_nil]
      exact ihr hkind
  | sole before l after => exact absurd rfl hk
  | compound before inner after hkind hcontent ih => exact absurd rfl hk

/-- Behind a phrase that is no content, no bracket is opened. -/
theorem not_opensLevel {k : Kind} (p : Phrase k) (hk : k ≠ .content) (x : Text) (w : Layout) :
    ¬ OpensLevel (x ++ p.text ++ w.text) := by
  have htight := p.isTight_text hk
  have hne := p.getLast?_text_ne_opening hk
  rcases List.eq_nil_or_concat p.text with hnil | ⟨v, c, hv⟩
  · exact absurd hnil htight.ne_nil
  · have hlast : p.text.getLast? = some c := by
      rw [hv, List.concat_eq_append, List.getLast?_concat]
    rw [hlast] at hne
    rw [OpensLevel, lastVisible?_append w.blank, hv, List.concat_eq_append, ← List.append_assoc,
      lastVisible?_concat (htight.last c hlast)]
    rintro (h | h)
    · cases h
    · exact hne h

/-- The tokens of an operation are those of its operands. -/
theorem levels_operation {j k : Kind} (op : Operator) (left : Phrase j) (before after : Layout)
    (right : Phrase k) (hleft : j.looseness ≤ op.looseness) (hright : k.looseness < op.looseness)
    (m : Nat) (x y : Text) :
    levels m x (operation op left before after right hleft hright).text y =
      levels m x left.text (before.text ++ op.symbol :: (after.text ++ right.text ++ y)) ∪
        levels m (x ++ left.text ++ before.text ++ op.symbol :: after.text) right.text y := by
  have hdepth : depthBehind? m (left.text ++ before.text ++ [op.symbol]) = some m := by
    rw [List.append_assoc, depthBehind?_balanced left.isBalanced_text,
      depthBehind?_balanced (isBalanced_of_isBlank before.blank)]
    cases op <;> rfl
  rw [text, levels_append_cons op.isBoundary_symbol hdepth,
    levels_append_blank left.isBalanced_text before.blank, levels_blank_append after.blank]
  simp

/-- **The nesting is the greatest level.**  The nesting of a content is the greatest level of its tokens,
and that of another phrase is one less.  A leaf that is no content is assumed not to be alone. -/
theorem isGreatest_levels {k : Kind} (p : Phrase k) :
    (k = .content → ∀ m, IsGreatest (levels m [] p.text []) (m + p.nesting)) ∧
      (k ≠ .content → ∀ m x y, (k = .leaf → cost x y = 1) →
        IsGreatest (levels m x p.text y) (m + p.nesting + 1)) := by
  induction p with
  | leaf l hl =>
      constructor
      · intro h
        cases h
      · intro _ m x y hcost
        have hone : cost (x ++ if false then ['-'] else []) y = 1 := by
          rw [if_neg (by decide), List.append_nil, hcost rfl]
        rw [text, l.levels_text, hl, hone]
        exact isGreatest_singleton
  | pair inside ih =>
      constructor
      · intro h
        cases h
      · intro _ m x y _
        rw [text, levels_pair inside.isBalanced_text, nesting, Nat.add_right_comm]
        exact ih.1 rfl (m + 1)
  | operation op left before after right hleft hright ihl ihr =>
      constructor
      · intro h
        cases h
      · intro _ m x y _
        have hkindl := Kind.ne_content_of_le hleft
        have hkindr := Kind.ne_content_of_le (Nat.le_of_lt hright)
        have hcloses : ¬ ClosesLevel (before.text ++ op.symbol :: (after.text ++ right.text ++ y)) := by
          rw [ClosesLevel, firstVisible?_append before.blank, firstVisible?_cons op.isLayout_symbol]
          cases op <;> simp [Operator.symbol]
        have hopens := left.not_opensLevel hkindl x before
        have hgreatest := (ihl.2 hkindl m x _ (fun _ => cost_of_not_closesLevel hcloses)).union
          (ihr.2 hkindr m _ y (fun _ => cost_behind_symbol op hopens after.blank y))
        have hmax : m + max left.nesting right.nesting + 1 =
            max (m + left.nesting + 1) (m + right.nesting + 1) := by
          omega
        rw [levels_operation, nesting, hmax]
        exact hgreatest
  | sole before l after =>
      constructor
      · intro _ m
        have hcost : cost (before.text ++ if l.isSigned then ['-'] else []) after.text = 0 := by
          split
          · exact (cost_between before after).2
          · rw [List.append_nil]
            exact (cost_between before after).1
        rw [text, levels_between before after (isBalanced_of_isFlat (isFlat_leaf l)), l.levels_text,
          hcost]
        exact isGreatest_singleton
      · intro h
        exact absurd rfl h
  | compound before inner after hkind hcontent ih =>
      constructor
      · intro _ m
        rw [text, levels_between before after inner.isBalanced_text, nesting, ← Nat.add_assoc]
        exact ih.2 hcontent m _ _ (fun h => absurd h hkind)
      · intro h
        exact absurd rfl h

end Phrase

/-! ## Counting pairs -/

namespace Bracket

/-- Up to the position, no pair is made that is around it. -/
theorem countP_pairsFrom_append (pos : Nat) {t : Text} (u : Text) {d : Nat} {waiting : List Nat}
    (h : depthBehind? waiting.length t = some d) (hwaiting : ∀ i ∈ waiting, i < pos) :
    ∃ waiting' : List Nat, waiting'.length = d ∧ (∀ i ∈ waiting', i < pos + t.length) ∧
      (pairsFrom pos waiting (t ++ u)).countP (isAround (pos + t.length)) =
        (pairsFrom (pos + t.length) waiting' u).countP (isAround (pos + t.length)) := by
  induction t generalizing pos waiting with
  | nil => exact ⟨waiting, Option.some.inj h, hwaiting, rfl⟩
  | cons c t ih =>
      have hlength : pos + (c :: t).length = pos + 1 + t.length := by
        rw [List.length_cons]
        omega
      have hlater : ∀ {l : List Nat}, (∀ i ∈ l, i < pos) → ∀ i ∈ l, i < pos + 1 :=
        fun hl i hi => Nat.lt_succ_of_lt (hl i hi)
      rw [hlength, List.cons_append]
      rcases eq_opening_or_closing_or_other c with rfl | rfl | hc
      · have hopen : depthBehind? (pos :: waiting).length t = some d := h
        exact ih (pos + 1) hopen (List.forall_mem_cons.mpr ⟨Nat.lt_succ_self pos, hlater hwaiting⟩)
      · cases waiting with
        | nil => cases h
        | cons latest earlier =>
            rw [pairsFrom_closing_cons, List.countP_cons_of_neg (by simp [isAround]; omega)]
            exact ih (pos + 1) h (hlater (List.forall_mem_cons.mp hwaiting).2)
      · rw [depthBehind?_other _ _ hc] at h
        rw [pairsFrom_other _ _ _ hc]
        exact ih (pos + 1) h (hlater hwaiting)

/-- From the position on, each bracket that waits there makes a pair around it, and no other one does. -/
theorem countP_pairsFrom_of_isBalanced {t : Text} {position pos : Nat} {opened waiting : List Nat}
    (h : isBalanced (opened ++ waiting).length t = true) (hpos : position ≤ pos)
    (hopened : ∀ i ∈ opened, position ≤ i) (hwaiting : ∀ i ∈ waiting, i < position) :
    (pairsFrom pos (opened ++ waiting) t).countP (isAround position) = waiting.length := by
  induction t generalizing pos opened waiting with
  | nil =>
      obtain ⟨-, rfl⟩ : opened = [] ∧ waiting = [] := by simpa [isBalanced] using h
      rfl
  | cons c t ih =>
      have hlater : position ≤ pos + 1 := Nat.le_succ_of_le hpos
      rcases eq_opening_or_closing_or_other c with rfl | rfl | hc
      · have hopen : isBalanced (pos :: opened ++ waiting).length t = true := h
        exact ih hopen hlater (List.forall_mem_cons.mpr ⟨hpos, hopened⟩) hwaiting
      · cases opened with
        | cons latest earlier =>
            rw [List.forall_mem_cons] at hopened
            rw [List.cons_append, pairsFrom_closing_cons,
              List.countP_cons_of_neg (by simp [isAround]; omega)]
            exact ih h hlater hopened.2 hwaiting
        | nil =>
            cases waiting with
            | nil => cases h
            | cons latest earlier =>
                rw [List.forall_mem_cons] at hwaiting
                rw [List.nil_append, pairsFrom_closing_cons,
                  List.countP_cons_of_pos (by simp [isAround]; omega), List.length_cons]
                have hclose : isBalanced ([] ++ earlier).length t = true := h
                exact congrArg (· + 1) (ih hclose hlater hopened hwaiting.2)
      · rw [isBalanced_other _ _ hc] at h
        rw [pairsFrom_other _ _ _ hc]
        exact ih h hlater hopened hwaiting

/-- In a balanced text the pairs around a position are those that are open there. -/
theorem enclosing_of_depthBehind? {before rest : Text} {d : Nat}
    (hd : depthBehind? 0 before = some d) (hrest : isBalanced d rest = true) :
    Text.enclosing (before ++ rest) before.length = d := by
  have hstart : depthBehind? ([] : List Nat).length before = some d := hd
  obtain ⟨waiting, rfl, hwaiting, hcount⟩ :=
    countP_pairsFrom_append 0 rest hstart (List.forall_mem_nil _)
  rw [Nat.zero_add] at hwaiting hcount
  rw [Text.enclosing, pairs, hcount]
  have hwait : isBalanced ([] ++ waiting).length rest = true := hrest
  exact countP_pairsFrom_of_isBalanced hwait (Nat.le_refl _) (List.forall_mem_nil _) hwaiting

end Bracket

/-- In a balanced text, the levels of the tokens are counted from the brackets that are open. -/
theorem Text.tokenLevels_eq_levels {t : Text} (h : isBalanced 0 t = true) :
    t.tokenLevels = levels 0 [] t [] := by
  have hlevel : ∀ {before run after : Text}, t.IsRun before run after →
      depthBehind? 0 before = some (t.enclosing before.length) := by
    intro before run after hrun
    have hcut := hrun.cut
    rw [List.append_assoc] at hcut
    obtain ⟨d, hd, hrest⟩ := isBalanced_append_iff.mp (hcut ▸ h)
    rw [hcut, enclosing_of_depthBehind? hd hrest]
    exact hd
  ext n
  constructor
  · rintro ⟨before, run, after, hrun, rfl⟩
    exact ⟨before, run, after, _, hrun, hlevel hrun, by simp⟩
  · rintro ⟨before, run, after, d, hrun, hd, rfl⟩
    obtain rfl : d = t.enclosing before.length := Option.some.inj (hd.symm.trans (hlevel hrun))
    exact ⟨before, run, after, hrun, by simp⟩

/-- **The nesting of a content is the greatest level of the tokens in its text.** -/
theorem Phrase.isGreatest_tokenLevels (c : Phrase .content) :
    IsGreatest c.text.tokenLevels c.nesting := by
  have hgreatest := c.isGreatest_levels.1 rfl 0
  rwa [Nat.zero_add, ← Text.tokenLevels_eq_levels c.isBalanced_text] at hgreatest

end InfixFormula

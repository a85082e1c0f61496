import InfixFormula.Proofs.TokenLevels

/-!
# Layout between tokens

The tokens of a formula are its brackets, its operators and its leaves, where a sign in front of a lone
literal is part of the leaf.  A text is *spaced* with a list of tokens if it is those tokens with layout
between them.  The text of a phrase is spaced with its tokens (`Phrase.spaced_text`), and every text that
is spaced with the tokens of a phrase is a phrase of the same nesting and outline between layout
(`Phrase.exists_of_spaced`).

So layout may be changed wherever it does not cut a token (`Spaced.exchange`).  No token has layout in it,
so any layout may be taken out.  It may be put in at the ends of the text and beside brackets and
operators, but not behind a sign; where a level has just been opened, a minus sign is one.
-/

namespace InfixFormula

open Text

/-- A bracket, an operator or a leaf. -/
inductive Token where
  | opening
  | closing
  | operator (op : Operator)
  | leaf (l : Leaf)

namespace Token

def text : Token → Text
  | opening => ['(']
  | closing => [')']
  | operator op => [op.symbol]
  | leaf l => l.text

/-- Whether a level has just been opened behind the token. -/
def opens : Token → Bool
  | opening => true
  | _ => false

def isSigned : Token → Bool
  | leaf l => l.isSigned
  | _ => false

/-- Signs stand only where a level has just been opened; it has at the start if `opened`. -/
def SignsOpen : (opened : Bool) → List Token → Prop
  | _, [] => True
  | opened, token :: tokens => (token.isSigned = true → opened = true) ∧ SignsOpen token.opens tokens

/-- Every token has a text. -/
theorem text_ne_nil (token : Token) : token.text ≠ [] := by
  cases token with
  | leaf l => exact l.text_ne_nil
  | _ => exact List.cons_ne_nil _ _

/-- No token holds layout. -/
theorem not_isLayout {token : Token} {c : Char} (hc : c ∈ token.text) : isLayout c = false := by
  cases token with
  | opening =>
      obtain rfl := List.mem_singleton.mp hc
      rfl
  | closing =>
      obtain rfl := List.mem_singleton.mp hc
      rfl
  | operator op =>
      obtain rfl := List.mem_singleton.mp hc
      exact op.isLayout_symbol
  | leaf l => exact Leaf.not_isLayout hc

end Token

/-- The tokens of a phrase. -/
def Phrase.tokens : {k : Kind} → Phrase k → List Token
  | _, leaf l _ => [.leaf l]
  | _, pair inside => .opening :: (inside.tokens ++ [.closing])
  | _, operation op left _ _ right _ _ => left.tokens ++ .operator op :: right.tokens
  | _, sole _ l _ => [.leaf l]
  | _, compound _ inner _ _ _ => inner.tokens

/-- The text is the tokens with layout between them. -/
inductive Spaced : List Token → Text → Prop where
  | nil (w : Layout) : Spaced [] w.text
  | cons {tokens : List Token} {t : Text} (w : Layout) (token : Token) (h : Spaced tokens t) :
      Spaced (token :: tokens) (w.text ++ (token.text ++ t))

namespace Spaced

variable {tokens more : List Token} {t u v : Text}

/-- Layout may stand in front of the first token. -/
theorem blank_append (w : Layout) (h : Spaced tokens t) : Spaced tokens (w.text ++ t) := by
  cases h with
  | nil v => exact .nil (w.append v)
  | cons v token h =>
      rw [← List.append_assoc]
      exact .cons (w.append v) token h

/-- Spaced tokens one behind the other are spaced. -/
theorem append (h : Spaced tokens t) (h' : Spaced more u) : Spaced (tokens ++ more) (t ++ u) := by
  induction h with
  | nil w => exact h'.blank_append w
  | cons w token h ih =>
      rw [List.append_assoc, List.append_assoc]
      exact .cons w token ih

theorem singleton (token : Token) : Spaced [token] token.text := by
  simpa [Layout.none] using Spaced.cons .none token (.nil .none)

/-- The text can be cut behind any of its tokens. -/
theorem exists_of_append (h : Spaced (tokens ++ more) t) :
    ∃ u v, t = u ++ v ∧ Spaced tokens u ∧ Spaced more v := by
  induction tokens generalizing t with
  | nil => exact ⟨[], t, rfl, .nil .none, h⟩
  | cons token tokens ih =>
      cases h with
      | cons w token h =>
          obtain ⟨u, v, rfl, hu, hv⟩ := ih h
          exact ⟨w.text ++ (token.text ++ u), v, by simp, .cons w token hu, hv⟩

/-- A single token stands between its layout. -/
theorem exists_of_singleton {token : Token} (h : Spaced [token] t) :
    ∃ before after : Layout, t = before.text ++ token.text ++ after.text := by
  cases h with
  | cons before token h =>
      cases h with
      | nil after => exact ⟨before, after, by simp⟩

end Spaced

namespace Phrase

/-- A content with more layout around it. -/
def padded (w : Layout) : Phrase .content → Layout → Phrase .content
  | sole before l after, w' => sole (w.append before) l (after.append w')
  | compound before inner after hleaf hcontent, w' =>
      compound (w.append before) inner (after.append w') hleaf hcontent

section Padded

variable (w w' : Layout) (c : Phrase .content)

theorem text_padded : (c.padded w w').text = w.text ++ c.text ++ w'.text := by
  cases c <;> simp [padded, text, Layout.append]

/-- Layout adds no levels. -/
theorem nesting_padded : (c.padded w w').nesting = c.nesting := by
  cases c <;> rfl

/-- Layout means nothing. -/
theorem outline_padded : (c.padded w w').outline = c.outline := by
  cases c <;> rfl

end Padded

/-- The text of a phrase is its tokens with layout between them. -/
theorem spaced_text {k : Kind} (p : Phrase k) : Spaced p.tokens p.text := by
  have hblank : ∀ w : Layout, Spaced [] w.text := .nil
  induction p with
  | leaf l hl => exact .singleton (.leaf l)
  | pair inside ih => exact (Spaced.singleton .opening).append (ih.append (.singleton .closing))
  | operation op left before after right hleft hright ihl ihr =>
      have hright := (Spaced.singleton (.operator op)).append (ihr.blank_append after)
      have hwhole := ihl.append (hright.blank_append before)
      simpa [text, tokens, Token.text] using hwhole
  | sole before l after =>
      have hleaf := (Spaced.singleton (.leaf l)).append (hblank after)
      simpa [text, tokens, Token.text] using hleaf.blank_append before
  | compound before inner after hleaf hcontent ih =>
      simpa [text, tokens] using (ih.append (hblank after)).blank_append before

/-- **Layout makes no phrase.**  A text that is spaced with the tokens of a phrase is a phrase of the
same nesting and outline, between layout. -/
theorem exists_of_spaced {k : Kind} (p : Phrase k) {t : Text} (h : Spaced p.tokens t) :
    ∃ (before after : Layout) (q : Phrase k), t = before.text ++ q.text ++ after.text ∧
      q.nesting = p.nesting ∧ q.outline = p.outline := by
  induction p generalizing t with
  | leaf l hl =>
      obtain ⟨before, after, rfl⟩ := h.exists_of_singleton
      exact ⟨before, after, leaf l hl, rfl, rfl, rfl⟩
  | pair inside ih =>
      cases h with
      | cons before token h =>
          obtain ⟨u, v, rfl, hinside, hclosing⟩ := h.exists_of_append
          obtain ⟨w, w', inside', rfl, hnesting, houtline⟩ := ih hinside
          obtain ⟨v, after, rfl⟩ := hclosing.exists_of_singleton
          refine ⟨before, after, pair (inside'.padded w (w'.append v)), ?_, ?_, ?_⟩
          · simp [text, text_padded, Layout.append, Token.text]
          · rw [nesting, nesting_padded, hnesting, nesting]
          · rw [outline, outline_padded, houtline, outline]
  | operation op left before after right hleft hright ihl ihr =>
      obtain ⟨u, v, rfl, hl, hr⟩ := h.exists_of_append
      cases hr with
      | cons w token hr =>
          obtain ⟨before, v, left', rfl, hnesting, houtline⟩ := ihl hl
          obtain ⟨v', after, right', rfl, hnesting', houtline'⟩ := ihr hr
          refine ⟨before, after,
            operation op left' (v.append w) v' right' hleft hright, ?_, ?_, ?_⟩
          · simp [text, Layout.append, Token.text]
          · rw [nesting, nesting, hnesting, hnesting']
          · rw [outline, outline, houtline, houtline']
  | sole before l after =>
      obtain ⟨w, w', rfl⟩ := h.exists_of_singleton
      refine ⟨.none, .none, sole w l w', ?_, rfl, rfl⟩
      simp [text, Layout.none, Token.text]
  | compound before inner after hleaf hcontent ih =>
      obtain ⟨w, w', inner', rfl, hnesting, houtline⟩ := ih h
      refine ⟨.none, .none, compound w inner' w' hleaf hcontent, ?_, ?_, houtline⟩
      · simp [text, Layout.none]
      · rw [nesting, nesting, hnesting]

/-- Only the leaf that is alone in a content has a sign. -/
theorem signsOpen_tokens {k : Kind} (p : Phrase k) {opened : Bool} (hk : k = .content → opened = true)
    {more : List Token} (hmore : Token.SignsOpen false more) :
    Token.SignsOpen opened (p.tokens ++ more) := by
  induction p generalizing opened more with
  | leaf l hl => exact ⟨fun hsigned => absurd (hl.symm.trans hsigned) (by simp), hmore⟩
  | pair inside ih =>
      have hclosing : Token.SignsOpen false (.closing :: more) := ⟨by simp [Token.isSigned], hmore⟩
      have hinside : Token.SignsOpen true (inside.tokens ++ .closing :: more) :=
        ih (fun _ => rfl) hclosing
      simpa [tokens, Token.SignsOpen, Token.isSigned, Token.opens] using hinside
  | operation op left before after right hleft hright ihl ihr =>
      have hright' : Token.SignsOpen false (right.tokens ++ more) :=
        ihr (fun h => absurd h (Kind.ne_content_of_le (Nat.le_of_lt hright))) hmore
      have hoperator : Token.SignsOpen false (.operator op :: (right.tokens ++ more)) :=
        ⟨by simp [Token.isSigned], hright'⟩
      have hleft : Token.SignsOpen opened (left.tokens ++ .operator op :: (right.tokens ++ more)) :=
        ihl (fun h => absurd h (Kind.ne_content_of_le hleft)) hoperator
      simpa [tokens] using hleft
  | sole before l after => exact ⟨fun _ => hk rfl, hmore⟩
  | compound before inner after hleaf hcontent ih => exact ih (fun h => absurd h hcontent) hmore

end Phrase

namespace Text

/-- The text ends with a minus sign where a level has just been opened. -/
def EndsWithSign (t : Text) : Prop := t.getLast? = some '-' ∧ OpensLevel t.dropLast

/-- Layout may be put between the two texts: a bracket or an operator stands beside it, or one of the texts
is empty, and it is not behind a sign. -/
def TakesLayout (u v : Text) : Prop := v.StartsDelimited ∨ u.EndsDelimited ∧ ¬ u.EndsWithSign

/-- Layout at the start of a level is still the start. -/
theorem OpensLevel.append {t w : Text} (h : t.OpensLevel) (hw : w.isBlank = true) :
    OpensLevel (t ++ w) := by
  unfold OpensLevel at h ⊢
  rwa [lastVisible?_append hw]

/-- A stretch of layout does not start with a character that is none. -/
theorem eq_nil_of_isBlank {w u t v : Text} (hw : w.isBlank = true) (hu : u ≠ [])
    (hvisible : ∀ c ∈ u, isLayout c = false) (h : w ++ v = u ++ t) : w = [] := by
  cases w with
  | nil => rfl
  | cons c w =>
      cases u with
      | nil => exact absurd rfl hu
      | cons d u =>
          obtain ⟨rfl, -⟩ := List.cons.inj h
          have hc : isLayout c = true := List.all_eq_true.mp hw c List.mem_cons_self
          rw [hvisible c List.mem_cons_self] at hc
          cases hc

end Text

namespace Leaf

variable {l : Leaf} {c : Char} {a b : Text}

/-- Only the first character of a leaf can be a delimiter. -/
theorem any_isDelimiter_of_text_eq (h : l.text = c :: (a ++ b)) :
    a.any Literal.isDelimiter = false ∧ b.any Literal.isDelimiter = false := by
  have hbody := l.any_isDelimiter_body
  have htail : (a ++ b).any Literal.isDelimiter = false := by
    rw [l.text_eq] at h
    split at h
    · obtain ⟨-, htail⟩ := List.cons.inj h
      rwa [← htail]
    · rw [h, List.any_cons, Bool.or_eq_false_iff] at hbody
      exact hbody.2
  rwa [List.any_append, Bool.or_eq_false_iff] at htail

/-- It is one only if it is the sign. -/
theorem isSigned_of_text_eq (h : l.text = c :: a) (hc : Literal.isDelimiter c = true) :
    l.isSigned = true ∧ c = '-' := by
  have hsigned : l.isSigned = true := by
    rw [← l.any_isDelimiter_text, h, List.any_cons, hc]
    rfl
  rw [l.text_eq, if_pos hsigned] at h
  exact ⟨hsigned, (List.cons.inj h).1.symm⟩

end Leaf

/-- A token that is cut in two is a leaf. -/
theorem Token.exists_leaf_of_text_eq {token : Token} {a b : Text} (h : token.text = a ++ b)
    (ha : a ≠ []) (hb : b ≠ []) : ∃ l, token = .leaf l := by
  have hlength := congrArg List.length h
  have hposa := List.length_pos_iff.mpr ha
  have hposb := List.length_pos_iff.mpr hb
  rw [List.length_append] at hlength
  cases token with
  | leaf l => exact ⟨l, rfl⟩
  | opening => simp only [text, List.length_singleton] at hlength; omega
  | closing => simp only [text, List.length_singleton] at hlength; omega
  | operator op => simp only [text, List.length_singleton] at hlength; omega

/-- No token takes layout. -/
theorem Token.not_takesLayout {token : Token} {tokens : List Token} {opened : Bool}
    (hsigns : SignsOpen opened (token :: tokens)) {front a b : Text}
    (hfront : opened = true → front.OpensLevel) (h : token.text = a ++ b) (ha : a ≠ []) (hb : b ≠ [])
    (t : Text) : ¬ TakesLayout (front ++ a) (b ++ t) := by
  obtain ⟨l, rfl⟩ := exists_leaf_of_text_eq h ha hb
  have hvisible : ∀ c ∈ a ++ b, isLayout c = false := fun c hc => Leaf.not_isLayout (h ▸ hc)
  obtain ⟨c, a, rfl⟩ := List.exists_cons_of_ne_nil ha
  obtain ⟨d, b, rfl⟩ := List.exists_cons_of_ne_nil hb
  obtain ⟨hplain, hplain'⟩ := Leaf.any_isDelimiter_of_text_eq h
  rintro (hstarts | ⟨hends, hsign⟩)
  · have hd := hstarts d (firstVisible?_cons (hvisible d (by simp)) _)
    simp [hd] at hplain'
  · rcases List.eq_nil_or_concat' a with rfl | ⟨a, e, rfl⟩
    · -- The first character ends the front part, so it is the sign that the leaf starts with.
      have hc := hends c (lastVisible?_concat (hvisible c (by simp)) front)
      obtain ⟨hsigned, rfl⟩ := Leaf.isSigned_of_text_eq h hc
      apply hsign
      refine ⟨List.getLast?_concat, ?_⟩
      rw [List.dropLast_concat]
      exact hfront (hsigns.1 hsigned)
    · have hsplit : front ++ c :: (a ++ [e]) = front ++ c :: a ++ [e] := by simp
      rw [hsplit] at hends
      have he := hends e (lastVisible?_concat (hvisible e (by simp)) _)
      simp [he] at hplain

/-- Layout in front of a token ends there. -/
theorem Token.exists_layout_of_append (token : Token) {w : Text} {x : Layout} {v t : Text}
    (hw : w.isBlank = true) (h : w ++ (token.text ++ t) = x.text ++ v) :
    ∃ w' : Text, w'.isBlank = true ∧ v = w' ++ (token.text ++ t) := by
  rcases List.append_eq_append_iff.mp h with ⟨z, hx, hrest⟩ | ⟨z, rfl, hrest⟩
  · have hz : isBlank z = true := by
      have hx' := x.blank
      rw [hx, isBlank_append, Bool.and_eq_true] at hx'
      exact hx'.2
    obtain rfl := eq_nil_of_isBlank hz token.text_ne_nil (fun c => token.not_isLayout) hrest.symm
    exact ⟨[], rfl, hrest.symm⟩
  · rw [isBlank_append, Bool.and_eq_true] at hw
    exact ⟨z, hw.2, hrest⟩

namespace Spaced

/-- **Layout may be exchanged.**  A stretch of layout may be exchanged for another one, if that one is
empty or put where the text takes layout. -/
theorem exchange {tokens : List Token} {t : Text} (h : Spaced tokens t) {opened : Bool}
    (hsigns : Token.SignsOpen opened tokens) {front u v : Text} {x y : Layout}
    (hfront : opened = true → front.OpensLevel) (ht : t = u ++ (x.text ++ v))
    (hy : y.text = [] ∨ TakesLayout (front ++ u) v) : Spaced tokens (u ++ (y.text ++ v)) := by
  induction h generalizing opened front u with
  | nil w =>
      have hblank : isBlank (u ++ (y.text ++ v)) = true := by
        have hw := w.blank
        rw [ht] at hw
        simp only [isBlank_append, Bool.and_eq_true] at hw ⊢
        exact ⟨hw.1, y.blank, hw.2.2⟩
      exact .nil ⟨_, hblank⟩
  | @cons tokens t w token h ih =>
      -- In front of the token the layout is exchanged there, behind it in the rest of the text.
      have hbefore : ∀ w₁ w₂ : Text, w₁.isBlank = true → w₂.isBlank = true →
          Spaced (token :: tokens) (w₁ ++ (y.text ++ (w₂ ++ (token.text ++ t)))) := by
        intro w₁ w₂ h₁ h₂
        have hspaced := Spaced.cons ((Layout.append ⟨w₁, h₁⟩ y).append ⟨w₂, h₂⟩) token h
        simpa [Layout.append] using hspaced
      have hbehind : ∀ a, t = a ++ (x.text ++ v) → u = w.text ++ (token.text ++ a) →
          Spaced (token :: tokens) (u ++ (y.text ++ v)) := by
        rintro a hrest rfl
        have hopens : token.opens = true → OpensLevel (front ++ w.text ++ token.text) := by
          intro hopens
          cases token with
          | opening => exact .inr (lastVisible?_concat rfl _)
          | _ => cases hopens
        have hlater : y.text = [] ∨ TakesLayout (front ++ w.text ++ token.text ++ a) v := by
          simpa using hy
        have hspaced := Spaced.cons w token (ih hsigns.2 hopens hrest hlater)
        simpa using hspaced
      rcases List.append_eq_append_iff.mp ht with ⟨a, hu, hrest⟩ | ⟨w₂, hw, hrest⟩
      · rcases List.append_eq_append_iff.mp hrest with ⟨a', rfl, hrest'⟩ | ⟨b, htoken, hrest'⟩
        · exact hbehind a' hrest' hu
        · by_cases ha : a = []
          · obtain rfl : u = w.text := by rw [hu, ha, List.append_nil]
            have hsplit : [] ++ (token.text ++ t) = x.text ++ v := by rw [hrest, ha]; rfl
            obtain ⟨w₃, hw₃, rfl⟩ := token.exists_layout_of_append rfl hsplit
            exact hbefore w.text w₃ w.blank hw₃
          · by_cases hb : b = []
            · rw [hb, List.append_nil] at htoken
              rw [hb] at hrest'
              exact hbehind [] hrest'.symm (by rw [hu, htoken, List.append_nil])
            · -- A token that is cut has no layout at the cut, and does not take any.
              have hvisible : ∀ c ∈ b, isLayout c = false := by
                intro c hc
                exact Token.not_isLayout (htoken ▸ List.mem_append_right a hc)
              have hx : x.text = [] := eq_nil_of_isBlank x.blank hb hvisible hrest'
              have hv : v = b ++ t := by rw [← hrest', hx, List.nil_append]
              have hfront' : opened = true → OpensLevel (front ++ w.text) :=
                fun h => (hfront h).append w.blank
              have hnone : y.text = [] := by
                refine hy.resolve_right ?_
                rw [hu, hv, ← List.append_assoc]
                exact Token.not_takesLayout hsigns hfront' htoken ha hb t
              rw [hnone, List.nil_append, ← List.nil_append v, ← hx, ← ht]
              exact .cons w token h
      · have hblank := w.blank
        rw [hw, isBlank_append, Bool.and_eq_true] at hblank
        obtain ⟨w₃, hw₃, rfl⟩ := token.exists_layout_of_append hblank.2 hrest.symm
        exact hbefore u w₃ hblank.1 hw₃

end Spaced

namespace Text

/-- Layout is put into a text where the text takes it, or taken out of it anywhere. -/
inductive Respaced : Text → Text → Prop where
  | insert {u v : Text} (w : Layout) (h : TakesLayout (Bracket.ascii u) (Bracket.ascii v)) :
      Respaced (u ++ v) (u ++ (w.text ++ v))
  | delete {u v : Text} (w : Layout) : Respaced (u ++ (w.text ++ v)) (u ++ v)

end Text

/-- What layout is exchanged in is read to the same outline. -/
theorem Tree.exists_parse_of_exchange {limit : Nat} {u v : Text} {x y : Layout} {t : Tree}
    (h : Tree.parse limit (u ++ (x.text ++ v)) = .ok t)
    (hy : y.text = [] ∨ TakesLayout (Bracket.ascii u) (Bracket.ascii v)) :
    ∃ t', Tree.parse limit (u ++ (y.text ++ v)) = .ok t' ∧ t'.outline = t.outline := by
  have hascii : ∀ w : Layout, Bracket.ascii (u ++ (w.text ++ v)) =
      Bracket.ascii u ++ (w.text ++ Bracket.ascii v) := by
    intro w
    rw [Bracket.ascii_append, Bracket.ascii_append, Bracket.ascii_of_isBlank w.blank]
  obtain ⟨c, hc, hnesting, rfl⟩ := Tree.parse_eq_ok_iff.mp h
  have hspaced := c.spaced_text
  rw [hc, hascii] at hspaced
  have hsigns : Token.SignsOpen true (c.tokens ++ []) := c.signsOpen_tokens (fun _ => rfl) trivial
  have hfront : true = true → OpensLevel [] := fun _ => .inl rfl
  rw [List.append_nil] at hsigns
  obtain ⟨w, w', d, htext, hnesting', houtline⟩ :=
    c.exists_of_spaced (hspaced.exchange hsigns hfront rfl hy)
  have hread : Tree.parse limit (u ++ (y.text ++ v)) =
      .ok ((d.padded w w').tree (Bracket.ascii (u ++ (y.text ++ v))) 0) := by
    rw [Tree.parse_eq_ok_iff]
    refine ⟨d.padded w w', ?_, ?_, rfl⟩
    · rw [Phrase.text_padded, hascii, htext]
    · rw [Phrase.nesting_padded, hnesting']
      exact hnesting
  exact ⟨_, hread, by rw [Phrase.outline_tree, Phrase.outline_tree, Phrase.outline_padded, houtline]⟩

/-- Layout that is put in or taken out leaves the meaning of the tree. -/
theorem Tree.exists_parse_of_respaced {limit : Nat} {text text' : Text} {t : Tree}
    (h : Tree.parse limit text = .ok t) (hrespaced : Respaced text text') :
    ∃ t', Tree.parse limit text' = .ok t' ∧ t'.outline = t.outline := by
  cases hrespaced with
  | @insert u v w htakes => exact Tree.exists_parse_of_exchange (x := .none) h (.inr htakes)
  | @delete u v w => exact Tree.exists_parse_of_exchange (y := .none) h (.inl rfl)

/-- **Layout does not matter.**  However often layout is put in and taken out, a text that is read is
read, under the same limit, to a tree with the same outline. -/
theorem Formula.parse_respaced {limit : Nat} {text text' : Text} {f : Formula}
    (h : Formula.parse limit text = .ok f) (hrespaced : Relation.ReflTransGen Respaced text text') :
    ∃ f', Formula.parse limit text' = .ok f' ∧ f'.tree.outline = f.tree.outline := by
  induction hrespaced with
  | refl => exact ⟨f, h, rfl⟩
  | tail _ hstep ih =>
      obtain ⟨g, hg, houtline⟩ := ih
      obtain ⟨t, ht, houtline'⟩ :=
        Tree.exists_parse_of_respaced (Formula.parse_eq_ok_iff.mp hg).1 hstep
      exact ⟨_, Formula.parse_of_tree ht, houtline'.trans houtline⟩

/-- The blank before the plus is taken out, and a line feed is put behind the percentage. -/
theorem Formula.parse_respaced_sample :
    ∃ f f', Formula.parse 2 "（1 + x） * 2%".toList = .ok f ∧
      Relation.ReflTransGen Respaced "（1 + x） * 2%".toList "（1+ x） * 2%\n".toList ∧
      Formula.parse 2 "（1+ x） * 2%\n".toList = .ok f' ∧ f'.tree.outline = f.tree.outline := by
  obtain ⟨f, hf⟩ := Formula.exists_parse_sample
  have hdelete : Respaced "（1 + x） * 2%".toList "（1+ x） * 2%".toList :=
    .delete (u := "（1".toList) (v := "+ x） * 2%".toList) ⟨[' '], rfl⟩
  have hinsert : Respaced "（1+ x） * 2%".toList "（1+ x） * 2%\n".toList :=
    .insert (u := "（1+ x） * 2%".toList) (v := []) ⟨['\n'], rfl⟩ (.inl startsDelimited_nil)
  have hrespaced := (Relation.ReflTransGen.single hdelete).tail hinsert
  obtain ⟨f', hf', houtline⟩ := Formula.parse_respaced hf hrespaced
  exact ⟨f, f', hf, hrespaced, hf', houtline⟩

end InfixFormula

import InfixFormula.Proofs.Bindings
import InfixFormula.Proofs.Capitals
import InfixFormula.Proofs.Grammar

/-!
# The names in a tree that was read

Every variable of a tree stands in the text that was read, as a token: between layout, brackets and
operators, or at an end of the text (`hasToken_of_mem_names`).  Such a token is a name, and a text that is
a name is read as a variable (`Tree.parse_name`, `Formula.parseWith_of_rewritten`).  Placeholders are such
names (`isName_placeholder`), and no name that is replaced stands in one (`not_occurs_placeholder`).
-/

namespace InfixFormula

namespace Text

/-- Whether the character ends a token. -/
def isBoundary (c : Char) : Bool := isLayout c || Literal.isDelimiter c

/-- Layout ends tokens. -/
theorem isBoundary_of_isLayout {c : Char} (hc : isLayout c = true) : isBoundary c = true := by
  rw [isBoundary, hc, Bool.true_or]

/-- The stretch `u` stands in the text with a boundary, or an end of the text, on either side. -/
def HasToken (t u : Text) : Prop :=
  ∃ before after, t = before ++ u ++ after ∧ (∀ c ∈ before.getLast?, isBoundary c = true) ∧
    ∀ c ∈ after.head?, isBoundary c = true

theorem HasToken.self (u : Text) : u.HasToken u := ⟨[], [], by simp, by simp, by simp⟩

/-- A token stays one between characters that end tokens. -/
theorem HasToken.between {t u v w : Text} (h : t.HasToken u)
    (hv : ∀ c ∈ v.getLast?, isBoundary c = true) (hw : ∀ c ∈ w.head?, isBoundary c = true) :
    (v ++ t ++ w).HasToken u := by
  obtain ⟨before, after, rfl, hbefore, hafter⟩ := h
  refine ⟨v ++ before, after ++ w, by simp, ?_, ?_⟩
  · intro c hc
    rw [List.getLast?_append] at hc
    cases hlast : before.getLast? with
    | none => exact hv c (by simpa [hlast] using hc)
    | some d => exact hbefore c (by simpa [hlast] using hc)
  · intro c hc
    rw [List.head?_append] at hc
    cases hhead : after.head? with
    | none => exact hw c (by simpa [hhead] using hc)
    | some d => exact hafter c (by simpa [hhead] using hc)

end Text

open Text

/-- Operators end tokens. -/
theorem Operator.isBoundary_symbol (op : Operator) : isBoundary op.symbol = true := by
  cases op <;> rfl

theorem Layout.isBoundary_of_mem (w : Layout) {c : Char} (hc : c ∈ w.text) : isBoundary c = true :=
  isBoundary_of_isLayout (List.all_eq_true.mp w.blank c hc)

/-- Before an operator and its layout, a token ends. -/
theorem Operator.isBoundary_head (op : Operator) (w : Layout) (t : Text) :
    ∀ c ∈ (w.text ++ op.symbol :: t).head?, isBoundary c = true := by
  intro c hc
  cases hw : w.text with
  | nil =>
      obtain rfl : op.symbol = c := by simpa [hw] using hc
      exact op.isBoundary_symbol
  | cons d u =>
      obtain rfl : d = c := by simpa [hw] using hc
      exact w.isBoundary_of_mem (by simp [hw])

/-- Behind an operator and its layout, a token may start. -/
theorem Operator.isBoundary_last (op : Operator) (t : Text) (w : Layout) :
    ∀ c ∈ (t ++ op.symbol :: w.text).getLast?, isBoundary c = true := by
  intro c hc
  have hmem : c ∈ op.symbol :: w.text := by
    rw [List.getLast?_append, List.getLast?_cons, Option.some_or] at hc
    exact List.mem_of_mem_getLast? (by rwa [List.getLast?_cons])
  rcases List.mem_cons.mp hmem with rfl | hmem
  · exact op.isBoundary_symbol
  · exact w.isBoundary_of_mem hmem

namespace Phrase

variable {buffer : Text} {start : Nat} {n : Text}

/-- The only name in a leaf is its text. -/
theorem names_leaf {l : Leaf} {source : Source} (hn : n ∈ (l.tree source).names) :
    n = l.text ∧ IsName n := by
  cases l with
  | number d hd => cases hn
  | percentage d hd => cases hn
  | name m hm =>
      obtain rfl : n = m := by simpa [Leaf.tree] using hn
      exact ⟨rfl, hm⟩

/-- **Variables are tokens.**  A variable in the tree of a phrase is a name, and stands in the text of the
phrase as a token. -/
theorem hasToken_of_mem_names {k : Kind} (p : Phrase k) (hn : n ∈ (p.tree buffer start).names) :
    IsName n ∧ p.text.HasToken n := by
  have hleaf : ∀ (l : Leaf) (source : Source), n ∈ (l.tree source).names →
      IsName n ∧ l.text.HasToken n := by
    intro l source hmem
    obtain ⟨rfl, hname⟩ := names_leaf hmem
    exact ⟨hname, .self _⟩
  have hbetween : ∀ (before after : Layout) {t : Text}, t.HasToken n →
      (before.text ++ t ++ after.text).HasToken n :=
    fun before after t ht => ht.between
      (fun c hc => before.isBoundary_of_mem (List.mem_of_mem_getLast? hc))
      (fun c hc => after.isBoundary_of_mem (List.mem_of_mem_head? hc))
  induction p generalizing start with
  | leaf l hl => exact hleaf l _ hn
  | pair inside ih =>
      obtain ⟨hname, htoken⟩ := ih hn
      exact ⟨hname, htoken.between (v := ['(']) (w := [')']) (by simp [isBoundary, Literal.isDelimiter])
        (by simp [isBoundary, Literal.isDelimiter])⟩
  | operation op left before after right hleft hright ihl ihr =>
      rw [tree, Tree.names_binary, List.mem_append] at hn
      rcases hn with hn | hn
      · obtain ⟨hname, htoken⟩ := ihl hn
        refine ⟨hname, ?_⟩
        have h := htoken.between (v := []) (by simp) (op.isBoundary_head before (after.text ++ right.text))
        simpa [text] using h
      · obtain ⟨hname, htoken⟩ := ihr hn
        refine ⟨hname, ?_⟩
        have h := htoken.between (op.isBoundary_last (left.text ++ before.text) after) (w := []) (by simp)
        simpa [text] using h
  | sole before l after =>
      obtain ⟨hname, htoken⟩ := hleaf l _ hn
      exact ⟨hname, hbetween before after htoken⟩
  | compound before inner after hkind hcontent ih =>
      obtain ⟨hname, htoken⟩ := ih hn
      exact ⟨hname, hbetween before after htoken⟩

end Phrase

/-- The variables of a text that was read are names, and tokens of the text. -/
theorem Tree.isName_of_parse {limit : Nat} {text : Text} {t : Tree}
    (h : Tree.parse limit text = .ok t) {n : Text} (hn : n ∈ t.names) :
    IsName n ∧ (Bracket.ascii text).HasToken n := by
  obtain ⟨c, hc, -, rfl⟩ := Tree.parse_eq_ok_iff.mp h
  rw [← hc]
  exact c.hasToken_of_mem_names hn

/-- Digits are neither layout nor delimiters nor percent signs. -/
theorem Text.of_isDigit {c : Char} (h : c.isDigit = true) :
    isLayout c = false ∧ Literal.isDelimiter c = false ∧ c ≠ '%' := by
  have hcodes : ∀ code < 58, 48 ≤ code →
      isLayout (Char.ofNat code) = false ∧ Literal.isDelimiter (Char.ofNat code) = false ∧
        Char.ofNat code ≠ '%' := by
    decide
  simp only [Char.isDigit, Bool.and_eq_true, decide_eq_true_eq, ge_iff_le,
    UInt32.le_iff_toNat_le] at h
  have hlow : 48 ≤ c.toNat := h.1
  have hhigh : c.toNat ≤ 57 := h.2
  have hcode := hcodes c.toNat (by omega) hlow
  rwa [Char.ofNat_toNat] at hcode

namespace Substitution

/-- Placeholders consist of a small v and digits. -/
theorem mem_placeholder {index : Nat} {c : Char} (hc : c ∈ placeholder index) :
    c = 'v' ∨ c.isDigit = true :=
  (List.mem_cons.mp hc).imp_right isDigit_of_mem_tail_placeholder

/-- Placeholders have no brackets. -/
theorem ascii_placeholder (index : Nat) : Bracket.ascii (placeholder index) = placeholder index := by
  rw [Bracket.ascii_eq_self_iff]
  intro c hc
  rcases mem_placeholder hc with rfl | hdigit
  · decide
  · constructor
    · rintro rfl
      cases hdigit
    · rintro rfl
      cases hdigit

/-- Every placeholder is read as a variable. -/
theorem isName_placeholder (index : Nat) : IsName (placeholder index) := by
  refine ⟨List.cons_ne_nil _ _, ?_, ?_, ?_, ?_⟩
  · intro c hc
    rcases mem_placeholder hc with rfl | hdigit
    · rfl
    · exact (of_isDigit hdigit).1
  · intro c hc
    rcases mem_placeholder hc with rfl | hdigit
    · rfl
    · exact (of_isDigit hdigit).2.1
  · intro hc
    rcases mem_placeholder hc with h | h
    · cases h
    · cases h
  · intro hnumeric
    rcases hnumeric 'v' List.mem_cons_self with h | h
    · cases h
    · cases h

/-- The capitals of a name that is replaced are more than digits. -/
theorem exists_not_isDigit {name : Text} (h : isReplaced name = true) :
    ∃ c ∈ name.uppercase, c.isDigit = false := by
  by_contra hdigits
  have hcapital : ∀ c ∈ name.uppercase, c.isDigit = true := by
    intro c hc
    by_contra hdigit
    exact hdigits ⟨c, hc, by simpa using hdigit⟩
  have hname : ∀ c ∈ name, c.isDigit = true := by
    intro c hc
    obtain ⟨d, hd⟩ := List.exists_mem_of_ne_nil _ (capitals_ne_nil c)
    have hdigit := hcapital d (List.mem_flatMap.mpr ⟨c, hc, hd⟩)
    rwa [← (eq_of_isDigit_of_mem_capitals hd hdigit).2]
  rw [isReplaced, Bool.and_eq_true, Bool.not_eq_true', Bool.not_eq_true'] at h
  have hne : name ≠ [] := by
    rintro rfl
    cases h.1
  have hnumber : Literal.number? name = some ⟨false, name, []⟩ :=
    Literal.number?_eq_some_iff.mpr ⟨⟨hname, List.forall_mem_nil _, .inl hne⟩, rfl⟩
  rw [Literal.isNumber, hnumber] at h
  cases h.2

/-- No name that is replaced stands in a placeholder: the letter is no capital, and the digits are no
name. -/
theorem not_occurs_placeholder {name : Text} (h : isReplaced name = true) (index : Nat) :
    ¬ name.uppercase <:+: placeholder index := by
  intro hoccurs
  obtain ⟨c, hc, hdigit⟩ := exists_not_isDigit h
  rcases mem_placeholder (hoccurs.subset hc) with rfl | hdigit'
  · exact v_not_mem_uppercase _ hc
  · rw [hdigit] at hdigit'
    cases hdigit'

end Substitution

/-- A name is read as a variable. -/
theorem Tree.parse_name {n : Text} (hn : IsName n) (hascii : Bracket.ascii n = n) (limit : Nat) :
    Tree.parse limit n = .ok (.var n) := by
  rw [Tree.parse_eq_ok_iff, hascii]
  exact ⟨.sole .none (.name n hn) .none, by simp [Phrase.text, Layout.none, Leaf.text], Nat.zero_le _, rfl⟩

open Substitution in
/-- A text that is rewritten to a name is read as a variable. -/
theorem Formula.parseWith_of_rewritten {α : Type} {vars : Dict α} {text n : Text}
    (hrewritten : rewritten vars text = n) (hn : IsName n) (hascii : Bracket.ascii n = n) (limit : Nat) :
    Formula.parseWith limit vars text =
      .ok (⟨.var n, text, Substitution.mapping (bindings vars)⟩, extend (bindings vars) vars) := by
  apply Formula.parseWith_of_tree
  rw [hrewritten, Tree.parse_name hn hascii]

end InfixFormula

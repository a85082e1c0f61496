import InfixFormula.Proofs.FloatText
import InfixFormula.Proofs.Names
import InfixFormula.Proofs.Outlines
import InfixFormula.Proofs.SourceText

/-!
# Printed trees read back

A tree is printed with brackets around every operation, so its print is a phrase of the grammar and means
the same as the tree, however the formula grouped its operators (`Phrase.Prints`).  A pair of brackets costs
a level of its own, and still the print goes no deeper than the tree has levels.  It ends at the leaves:
the variables of a tree that was read are names, and what is written for a double reads back as the double,
unless it is an infinity or has a sign, for inside a formula a sign would be an operator.  Hence the print of
a formula is read to the same tree, but for the sources (`Formula.parse_print`).
-/

namespace InfixFormula

/-- Tokens of a text with ASCII brackets have no full-width ones. -/
theorem Text.HasToken.ascii_eq_self {t n : Text} (h : (Bracket.ascii t).HasToken n) :
    Bracket.ascii n = n := by
  obtain ⟨before, after, hsplit, -, -⟩ := h
  rw [Bracket.ascii_eq_self_iff]
  intro c hc
  apply Bracket.ne_of_mem_ascii (t := t)
  rw [hsplit]
  simp [hc]

/-- Numbers have no brackets. -/
theorem Decimal.ascii_text {d : Decimal} (hd : d.IsNumber) : Bracket.ascii d.text = d.text := by
  rw [Bracket.ascii_eq_self_iff]
  intro c hc
  have hplain : c = '-' ∨ c.isDigit = true ∨ c = '.' := by
    unfold text at hc
    split at hc
    · exact (List.mem_cons.mp hc).imp_right (mem_magnitudeText hd)
    · exact .inr (mem_magnitudeText hd hc)
  constructor <;>
    · rintro rfl
      revert hplain
      decide

theorem Text.isBlank_space : Text.isBlank [' '] = true := rfl

/-- One space. -/
def Layout.space : Layout := ⟨[' '], Text.isBlank_space⟩

/-- The phrase is written as the tree is printed, with ASCII brackets.  It means the same and goes no
deeper. -/
structure Phrase.Prints {k : Kind} (p : Phrase k) (t : Tree) : Prop where
  looseness_eq : k.looseness = 0
  text_eq : p.text = t.print
  ascii_eq : Bracket.ascii t.print = t.print
  depth_eq : p.nesting + 1 = t.depth
  outline_eq : p.outline = t.outline

namespace Phrase

/-- A name prints itself. -/
theorem prints_name {n : Text} (hn : IsName n) (hascii : Bracket.ascii n = n) :
    (leaf (.name n hn) rfl).Prints (.var n) where
  looseness_eq := rfl
  text_eq := by simp [text, Leaf.text, Tree.print, Tree.printOnto]
  ascii_eq := by simpa [Tree.print, Tree.printOnto] using hascii
  depth_eq := rfl
  outline_eq := rfl

/-- The decimal of a double without a sign prints the double. -/
theorem prints_number {d : Decimal} {x : Float} (hd : d.IsNumber) (hsign : d.negative = false)
    (htext : d.text = Decimal.floatText x) (hvalue : d.toFloat = x) (s : Source) :
    (leaf (.number d hd) hsign).Prints (.const x s) where
  looseness_eq := rfl
  text_eq := by simp [text, Leaf.text, htext, Tree.print, Tree.printOnto]
  ascii_eq := by simpa [Tree.print, Tree.printOnto, ← htext] using Decimal.ascii_text hd
  depth_eq := rfl
  outline_eq := congrArg Outline.const hvalue

variable {j k : Kind} {p : Phrase j} {q : Phrase k} {l r t : Tree}

/-- Two printed operands with an operator between them, in brackets. -/
theorem Prints.exists_pair (hp : p.Prints l) (hq : q.Prints r) (op : Operator) (s : Source) :
    ∃ inside : Phrase .content, inside.pair.Prints (.binary op l r s) := by
  have hleft : j.looseness ≤ op.looseness := by simp [hp.looseness_eq]
  have hright : k.looseness < op.looseness := by
    rw [hq.looseness_eq]
    cases op <;> decide
  refine ⟨.compound .none (.operation op p .space .space q hleft hright) .none (by simp) (by simp),
    rfl, ?_, ?_, ?_, ?_⟩
  · rw [Tree.print_binary, ← hp.text_eq, ← hq.text_eq]
    simp [text, Layout.none, Layout.space]
  · have hop : op.symbol ≠ '（' ∧ op.symbol ≠ '）' := by cases op <;> decide
    have hl := Bracket.ascii_eq_self_iff.mp hp.ascii_eq
    have hr := Bracket.ascii_eq_self_iff.mp hq.ascii_eq
    rw [Bracket.ascii_eq_self_iff, Tree.print_binary]
    grind
  · have hl := hp.depth_eq
    have hr := hq.depth_eq
    simp only [nesting, Tree.depth]
    omega
  · rw [Tree.outline, ← hp.outline_eq, ← hq.outline_eq]
    rfl

/-- What is printed can stand alone. -/
theorem Prints.exists_content (hp : p.Prints t) :
    ∃ c : Phrase .content, c.text = t.print ∧ c.nesting ≤ t.depth ∧ c.outline = t.outline := by
  have htext := hp.text_eq
  have hdepth := hp.depth_eq
  have houtline := hp.outline_eq
  cases p with
  | leaf l hl =>
      refine ⟨.sole .none l .none, ?_, Nat.zero_le _, houtline⟩
      rw [← htext]
      simp [text, Layout.none]
  | pair inside =>
      refine ⟨.compound .none inside.pair .none (by simp) (by simp), ?_, ?_, ?_⟩
      · rw [← htext]
        simp [text, Layout.none]
      · exact hdepth.le
      · exact houtline
  | operation op left before after right hleft hright =>
      have hloose := hp.looseness_eq
      cases op <;> cases hloose
  | sole before l after => cases hp.looseness_eq
  | compound before inner after hleaf hcontent => cases hp.looseness_eq

end Phrase

namespace Tree

/-- Every constant is finite, and none has a sign. -/
def IsPlain (t : Tree) : Prop :=
  ∀ x s, const x s ∈ t.subtrees → x.isFinite = true ∧ x.toBits.toNat < 2 ^ 63

variable {t : Tree} {limit : Nat}

/-- A tree whose constants are finite and have no sign is printed by a phrase. -/
theorem exists_prints (hplain : t.IsPlain) (hnames : ∀ n ∈ t.names, IsName n ∧ Bracket.ascii n = n) :
    ∃ (k : Kind) (p : Phrase k), p.Prints t := by
  induction t with
  | const x s =>
      obtain ⟨hfinite, hsign⟩ := hplain x s (by simp [subtrees])
      obtain ⟨d, hd, hnegative, htext, hvalue⟩ := Decimal.exists_toFloat_eq hfinite hsign
      exact ⟨_, _, Phrase.prints_number hd hnegative htext hvalue s⟩
  | var n =>
      obtain ⟨hname, hascii⟩ := hnames n (by simp)
      exact ⟨_, _, Phrase.prints_name hname hascii⟩
  | binary op l r s ihl ihr =>
      obtain ⟨j, p, hp⟩ := ihl (fun x s hmem => hplain x s (by simp [subtrees, hmem]))
        (fun n hn => hnames n (by simp [hn]))
      obtain ⟨k, q, hq⟩ := ihr (fun x s hmem => hplain x s (by simp [subtrees, hmem]))
        (fun n hn => hnames n (by simp [hn]))
      obtain ⟨inside, hpair⟩ := hp.exists_pair hq op s
      exact ⟨_, _, hpair⟩

/-- The variables of a tree that was read stand in its print as they are. -/
theorem ascii_of_mem_names {text n : Text} (h : Tree.parse limit text = .ok t) (hn : n ∈ t.names) :
    IsName n ∧ Bracket.ascii n = n := by
  obtain ⟨hname, htoken⟩ := Tree.isName_of_parse h hn
  exact ⟨hname, htoken.ascii_eq_self⟩

/-- The print of a tree is read as a tree that means the same. -/
theorem exists_parse_print {text : Text} (h : Tree.parse limit text = .ok t) (hplain : t.IsPlain)
    {limit' : Nat} (hlimit : t.depth ≤ limit') :
    ∃ u, Tree.parse limit' t.print = .ok u ∧ u.outline = t.outline := by
  obtain ⟨k, p, hp⟩ := exists_prints hplain (fun n hn => ascii_of_mem_names h hn)
  obtain ⟨c, htext, hnesting, houtline⟩ := hp.exists_content
  refine ⟨c.tree t.print 0, ?_, ?_⟩
  · rw [Tree.parse_eq_ok_iff, hp.ascii_eq]
    exact ⟨c, htext, Nat.le_trans hnesting hlimit, rfl⟩
  · rw [c.outline_tree, houtline]

end Tree

/-- **Printed trees read back.**  The print of a formula that was read, with or without known names, is read
again, if its constants are finite and without a sign and the limit is not below its number of levels.  The
tree is the same but for the sources, with the same constants bit by bit, and so is the print. -/
theorem Formula.parse_print {f : Formula} (hf : f.WasRead) (hplain : f.tree.IsPlain) {limit : Nat}
    (hlimit : f.tree.depth ≤ limit) :
    ∃ g, Formula.parse limit f.tree.print = .ok g ∧ g.tree.outline = f.tree.outline ∧
      g.tree.print = f.tree.print := by
  obtain ⟨limit', text, hread⟩ := hf.exists_parse
  obtain ⟨u, hu, houtline⟩ := Tree.exists_parse_print hread hplain hlimit
  exact ⟨_, Formula.parse_of_tree hu, houtline, Tree.print_congr houtline⟩

/-- The percentage is printed as the number that it was read as, and reading the print gives the same
print again. -/
theorem Formula.parse_print_sample :
    ∃ f g, Formula.parse 2 "（1 + x） * 2%".toList = .ok f ∧
      f.tree.print = "((1 + x) * 0.02)".toList ∧ f.WasRead ∧ f.tree.IsPlain ∧ f.tree.depth = 3 ∧
      Formula.parse 3 "((1 + x) * 0.02)".toList = .ok g ∧ g.tree.outline = f.tree.outline ∧
      g.tree.print = "((1 + x) * 0.02)".toList := by
  have hf : Formula.parse 2 "（1 + x） * 2%".toList =
      .ok ⟨Phrase.sample.tree "(1 + x) * 2%".toList 0, "（1 + x） * 2%".toList, Dict.empty⟩ :=
    Formula.parse_of_tree Tree.parse_sample
  have hprint : (Phrase.sample.tree "(1 + x) * 2%".toList 0).print = "((1 + x) * 0.02)".toList := by
    decide +kernel
  have hplain : (Phrase.sample.tree "(1 + x) * 2%".toList 0).IsPlain := by
    intro x s hx
    simp [Phrase.sample, Phrase.tree, Tree.subtrees, Leaf.operand, Leaf.tree] at hx
    rcases hx with ⟨rfl, -⟩ | ⟨rfl, -⟩ <;> decide +kernel
  have hdepth : (Phrase.sample.tree "(1 + x) * 2%".toList 0).depth ≤ 3 := Nat.le_refl 3
  obtain ⟨g, hg, houtline, hagain⟩ := Formula.parse_print (.inl ⟨2, _, hf⟩) hplain hdepth
  rw [hprint] at hg hagain
  exact ⟨_, g, hf, hprint, .inl ⟨_, _, hf⟩, hplain, rfl, hg, houtline, hagain⟩

end InfixFormula

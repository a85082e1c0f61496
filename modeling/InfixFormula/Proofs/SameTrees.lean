import InfixFormula.Proofs.Outlines
import InfixFormula.Proofs.SourceText

/-!
# Trees that are the same are worth the same

Two trees are the same if they agree as a reader sees them, and there the constants are compared as
doubles.  As it stands this is no fine comparison: it takes 0 for -0, which are told apart where something
is divided by them, and no tree with NaN is the same as itself.

For trees that were read it is fine enough.  The constants in them are the values of the literals that
their sources show (`Tree.HasLiterals`), and no literal is NaN.  Reading keeps to this throughout, with both
kinds of literals (`Phrase.hasLiterals_tree`).  So trees that show the same sources have the same constants
bit by bit (`Tree.outline_eq_of_same`), and no evaluation tells them apart (`Formula.same_sound`).
-/

namespace InfixFormula

/-- Every constant is the value of the literal that its source shows. -/
def Tree.HasLiterals : Tree → Prop
  | const x s => Literal.value? s.text = some x
  | var _ => True
  | binary _ l r _ => l.HasLiterals ∧ r.HasLiterals

/-- A leaf that stands in the buffer has the value of the text that it shows. -/
theorem Leaf.hasLiterals_tree {l : Leaf} {buffer : Text} {start : Nat}
    (h : buffer.OccursAt start l.text) : (l.operand buffer start).tree.HasLiterals := by
  have htext : Source.text ⟨buffer, ⟨start, start + l.text.length⟩⟩ = l.text := h.slice
  have hvalue := l.value?_text
  rw [← htext] at hvalue
  cases l with
  | number d hd => exact hvalue
  | percentage d hd => exact hvalue
  | name n hn => trivial

/-- Wherever a phrase stands, its tree has the values of its literals. -/
theorem Phrase.hasLiterals_tree {k : Kind} (p : Phrase k) {buffer : Text} {start : Nat}
    (h : buffer.OccursAt start p.text) : (p.tree buffer start).HasLiterals := by
  induction p generalizing start with
  | leaf l hl => exact Leaf.hasLiterals_tree h
  | pair inside ih => exact ih h.tail.left
  | operation op left before after right hleft hright ihl ihr =>
      exact ⟨ihl h.left.left, ihr (occursAt_right h)⟩
  | sole before l after => exact Leaf.hasLiterals_tree h.left.right
  | compound before inner after hleaf hcontent ih => exact ih h.left.right

namespace Tree

/-- What was read has the values of its literals, none of which is NaN. -/
theorem hasLiterals_of_parse {limit : Nat} {text : Text} {t : Tree}
    (h : Tree.parse limit text = .ok t) : t.HasLiterals ∧ t.hasValues = true := by
  obtain ⟨c, hc, -, rfl⟩ := Tree.parse_eq_ok_iff.mp h
  refine ⟨c.hasLiterals_tree ?_, c.hasValues_tree _ _⟩
  rw [hc]
  exact .whole _

/-- The literals that two trees show decide about their constants. -/
theorem outline_eq_of_same {t u : Tree} (ht : t.HasLiterals) (hu : u.HasLiterals)
    (h : t.same u = true) : u.outline = t.outline := by
  induction t generalizing u with
  | const x s =>
      cases u with
      | const y s' =>
          rw [same, Bool.and_eq_true] at h
          have htext : s.text = s'.text := (Source.same_iff s s').mp h.2
          have hvalue : some x = some y := by
            unfold HasLiterals at ht hu
            rw [← ht, ← hu, htext]
          rw [outline, outline, Option.some.inj hvalue]
      | var name => simp [same] at h
      | binary op l r s' => simp [same] at h
  | var name =>
      cases u with
      | const y s' => simp [same] at h
      | var name' =>
          have hname : name = name' := by simpa [same] using h
          rw [hname]
      | binary op l r s' => simp [same] at h
  | binary op l r s ihl ihr =>
      cases u with
      | const y s' => simp [same] at h
      | var name => simp [same] at h
      | binary op' l' r' s' =>
          simp only [same, Bool.and_eq_true, beq_iff_eq] at h
          obtain ⟨⟨⟨rfl, hl⟩, hr⟩, -⟩ := h
          rw [outline, outline, ihl ht.1 hu.1 hl, ihr ht.2 hu.2 hr]

end Tree

/-- It takes literals: trees with a 0 and a -0 that show one source are the same. -/
example : (Tree.const 0.0 (.ofText ['x'])).same (.const (-0.0) (.ofText ['x'])) = true ∧
    (0.0 : Float).toBits ≠ (-0.0 : Float).toBits := by
  decide +kernel

/-- **The same means the same.**  A tree that was read has no NaN, and it is the same as itself.  If two
trees that were read are the same, then their constants are so bit by bit, and every way of evaluating them
comes to the same result, with the same questions in the same order, whatever the variables, policies and
limit. -/
theorem Formula.same_sound {f g : Formula} (hf : f.WasRead) (hg : g.WasRead) :
    f.tree.hasValues = true ∧ f.tree.same f.tree = true ∧
      (f.tree.same g.tree = true → g.tree.outline = f.tree.outline ∧
        ∀ (limit : Nat) (lookup : Lookup),
          (f.tree.evaluateStrictly limit lookup).Alike (g.tree.evaluateStrictly limit lookup) ∧
          ∀ {σ : Type} (missing : MissingPolicy σ) (divisor : DivisorPolicy σ) (host : σ),
            (f.tree.evaluateByFallback limit lookup (Policy.noteMissing missing) (host, [])).Alike
              (g.tree.evaluateByFallback limit lookup (Policy.noteMissing missing) (host, [])) ∧
            (f.tree.evaluateByPolicies limit lookup (Policy.noteMissing missing)
              (Policy.noteDivisor divisor) (host, [])).Alike
              (g.tree.evaluateByPolicies limit lookup (Policy.noteMissing missing)
                (Policy.noteDivisor divisor) (host, []))) := by
  obtain ⟨limit, text, hread⟩ := hf.exists_parse
  obtain ⟨limit', text', hread'⟩ := hg.exists_parse
  obtain ⟨hliterals, hvalues⟩ := Tree.hasLiterals_of_parse hread
  obtain ⟨hliterals', -⟩ := Tree.hasLiterals_of_parse hread'
  refine ⟨hvalues, Tree.same_of_detached_eq hvalues rfl, fun hsame => ?_⟩
  have houtline := Tree.outline_eq_of_same hliterals hliterals' hsame
  refine ⟨houtline, fun limit lookup => ⟨?_, fun missing divisor host => ⟨?_, ?_⟩⟩⟩
  · exact (Tree.strictSetting limit lookup).alike_evaluate houtline (fun _ _ => rfl) ()
  · exact (Setting.ofPolicies limit lookup (Policy.noteMissing missing) Policy.zero).alike_evaluate
      houtline (fun _ _ => rfl) (host, [])
  · exact (Setting.ofPolicies limit lookup (Policy.noteMissing missing)
      (Policy.noteDivisor divisor)).alike_evaluate houtline (fun _ _ => rfl) (host, [])

theorem Decimal.isPercentage_two : IsPercentage ⟨false, ['2'], []⟩ :=
  ⟨⟨List.forall_mem_singleton.mpr rfl, List.forall_mem_nil _, .inl (List.cons_ne_nil _ _)⟩,
    List.cons_ne_nil _ _⟩

/-- The phrase `2%` behind layout. -/
def Phrase.twoPercent (before : Layout) : Phrase .content :=
  .sole before (.percentage _ Decimal.isPercentage_two) .none

/-- The second text has a blank in front, so the trees differ in their buffers and spans.  They are the same. -/
theorem Formula.same_sound_twoPercent :
    ∃ f g, Formula.parse 0 "2%".toList = .ok f ∧ Formula.parse 0 " 2%".toList = .ok g ∧
      f.WasRead ∧ g.WasRead ∧ f.tree.same f.tree = true ∧ f.tree.same g.tree = true ∧
      (f.tree.evaluateStrictly 0 (fun _ => none)).Alike (g.tree.evaluateStrictly 0 (fun _ => none)) := by
  have hread : ∀ (before : Layout) (text : Text), (Phrase.twoPercent before).text = Bracket.ascii text →
      Formula.parse 0 text =
        .ok ⟨(Phrase.twoPercent before).tree (Bracket.ascii text) 0, text, Dict.empty⟩ :=
    fun before text htext =>
      Formula.parse_of_tree (Tree.parse_eq_ok_iff.mpr ⟨_, htext, Nat.zero_le _, rfl⟩)
  have hf := hread .none "2%".toList (by decide)
  have hg := hread ⟨[' '], rfl⟩ " 2%".toList (by decide)
  obtain ⟨-, hrefl, halike⟩ := Formula.same_sound (.inl ⟨_, _, hf⟩) (.inl ⟨_, _, hg⟩)
  have hsame := Tree.same_of_detached_eq (u := (Phrase.twoPercent ⟨[' '], rfl⟩).tree " 2%".toList 0)
    ((Phrase.twoPercent .none).hasValues_tree "2%".toList 0) rfl
  exact ⟨_, _, hf, hg, .inl ⟨_, _, hf⟩, .inl ⟨_, _, hg⟩, hrefl, hsame, ((halike hsame).2 0 _).1⟩

end InfixFormula

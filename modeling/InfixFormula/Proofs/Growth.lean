import Mathlib.Algebra.BigOperators.Group.List.Basic
import Mathlib.Tactic.Linarith
import Mathlib.Tactic.Ring
import InfixFormula.Proofs.FaultPositions
import InfixFormula.Proofs.Names
import InfixFormula.Proofs.Replacing

/-!
# Positions in the rewritten text

An error of reading with known names tells a position of the rewritten text, which is no position of the
text that was given unless rewriting keeps the lengths.  What rewriting adds to the length is counted by
`Substitution.gain`: for each character the capitals beyond the first, and for each name as many times as
it is replaced what its placeholder is longer than its capitals, or less what it is shorter
(`Substitution.length_rewritten`).

So a position exceeds the given text by no more than the gain, and by nothing if each character has one
capital and each name that is replaced has as many capitals as its placeholder has characters
(`Formula.position_of_parseWith`).  A name of one letter has fewer.
-/

namespace InfixFormula

open Text

namespace Text

/-- The number of occurrences of the pattern behind the next `skip` characters, which belong to an
occurrence that has been counted already. -/
def occurrencesBehind (pattern : Text) : Nat → Text → Nat
  | _, [] => 0
  | skip + 1, _ :: t => occurrencesBehind pattern skip t
  | 0, c :: t =>
      if pattern.isPrefixOf (c :: t) then occurrencesBehind pattern (pattern.length - 1) t + 1
      else occurrencesBehind pattern 0 t

/-- The number of occurrences of the pattern, left to right and without overlap.  The empty pattern is not
counted. -/
def occurrences (pattern t : Text) : Nat :=
  if pattern.isEmpty then 0 else occurrencesBehind pattern 0 t

variable {pattern : Text}

/-- The rest of an occurrence is skipped. -/
theorem occurrencesBehind_append (u t : Text) :
    occurrencesBehind pattern u.length (u ++ t) = occurrencesBehind pattern 0 t := by
  induction u with
  | nil => rfl
  | cons c u ih => exact ih

/-- A pattern with characters is counted from the start. -/
theorem occurrences_of_ne_nil (hpattern : pattern ≠ []) (t : Text) :
    occurrences pattern t = occurrencesBehind pattern 0 t := by
  rw [occurrences, if_neg (by simpa using hpattern)]

/-- An occurrence at the start counts, and the next one is looked for behind it. -/
theorem occurrences_append (hpattern : pattern ≠ []) (t : Text) :
    occurrences pattern (pattern ++ t) = occurrences pattern t + 1 := by
  rw [occurrences_of_ne_nil hpattern, occurrences_of_ne_nil hpattern]
  cases pattern with
  | nil => exact absurd rfl hpattern
  | cons c u =>
      have hprefix : List.isPrefixOf (c :: u) (c :: (u ++ t)) = true :=
        List.isPrefixOf_iff_prefix.mpr ⟨t, rfl⟩
      rw [List.cons_append, occurrencesBehind, if_pos hprefix, List.length_cons, Nat.add_sub_cancel,
        occurrencesBehind_append]

/-- Where the pattern does not start, one character is passed. -/
theorem occurrences_cons {c : Char} {t : Text} (h : ¬ pattern <+: c :: t) :
    occurrences pattern (c :: t) = occurrences pattern t := by
  have hpattern : pattern ≠ [] := by
    rintro rfl
    exact h List.nil_prefix
  rw [occurrences_of_ne_nil hpattern, occurrences_of_ne_nil hpattern, occurrencesBehind,
    if_neg (by rwa [List.isPrefixOf_iff_prefix])]

/-- A pattern that does not occur is counted nowhere. -/
theorem occurrences_eq_zero {t : Text} (h : occursIn pattern t = false) : occurrences pattern t = 0 := by
  by_cases hpattern : pattern = []
  · rw [hpattern]
    rfl
  · induction t with
    | nil => rw [occurrences_of_ne_nil hpattern, occurrencesBehind]
    | cons c t ih =>
        simp only [occursIn, Bool.or_eq_false_iff] at h
        have hnot : ¬ pattern <+: c :: t := by simp [← List.isPrefixOf_iff_prefix, h.1]
        rw [occurrences_cons hnot, ih h.2]

/-- Each occurrence makes room for the replacement. -/
theorem length_replaceAll (pattern replacement t : Text) :
    ((replaceAll pattern replacement t).length : Int) =
      t.length + occurrences pattern t * (replacement.length - pattern.length) := by
  by_cases hpattern : pattern = []
  · have hnone : occurrences pattern t = 0 := by
      rw [hpattern]
      rfl
    rw [hnone, hpattern, replaceAll_nil, Int.natCast_zero, Int.zero_mul, Int.add_zero]
  · induction t using induction_on_occurrences hpattern with
    | nil => simp [replaceAll_empty, occurrences_of_ne_nil hpattern, occurrencesBehind]
    | put t ih =>
        rw [replaceAll_append hpattern, occurrences_append hpattern]
        push_cast [List.length_append]
        linarith
    | keep c t h ih =>
        rw [replaceAll_cons h, occurrences_cons h]
        push_cast [List.length_cons]
        linarith

/-- Each character makes room for its capitals. -/
theorem length_uppercase_eq (t : Text) :
    (t.uppercase.length : Int) = t.length + (t.map (fun c => ((capitals c).length : Int) - 1)).sum := by
  induction t with
  | nil => rfl
  | cons c t ih =>
      rw [uppercase_cons, List.map_cons, List.sum_cons]
      push_cast [List.length_append, List.length_cons]
      linarith

end Text

namespace Substitution

variable {α : Type} {vars : Dict α} {text : Text}

/-- What the replacing of the names adds to the length. -/
def gainFrom : List (Binding α) → Text → Int
  | [], _ => 0
  | b :: bs, t =>
      occurrences b.name.uppercase t * (b.placeholder.length - b.name.uppercase.length) +
        gainFrom bs (replaceAll b.name.uppercase b.placeholder t)

/-- What the rewriting adds to the length. -/
def gain (vars : Dict α) (text : Text) : Int :=
  if vars.entries.isEmpty then 0
  else (text.map (fun c => ((capitals c).length : Int) - 1)).sum +
    gainFrom (bindings vars) text.uppercase

/-- Each replacement adds what its placeholder has more than its name, as often as that occurs. -/
theorem length_foldl_replaceAll (bs : List (Binding α)) (t : Text) :
    ((bs.foldl (fun t b => replaceAll b.name.uppercase b.placeholder t) t).length : Int) =
      t.length + gainFrom bs t := by
  induction bs generalizing t with
  | nil => simp [gainFrom]
  | cons b bs ih =>
      rw [List.foldl_cons, ih, length_replaceAll, gainFrom]
      ring

/-- The rewritten text is longer by the gain. -/
theorem length_rewritten (vars : Dict α) (text : Text) :
    ((rewritten vars text).length : Int) = text.length + gain vars text := by
  rw [rewritten, gain]
  by_cases hvars : vars.entries.isEmpty = true
  · rw [if_pos hvars, if_pos hvars, Int.add_zero]
  · rw [if_neg hvars, if_neg hvars, substitute, length_foldl_replaceAll, length_uppercase_eq]
    ring

/-- Names with enough capitals, where they occur at their turn, add nothing. -/
theorem gainFrom_nonpos {bs : List (Binding α)} {t : Text}
    (h : ∀ before b after, bs = before ++ b :: after →
      occursIn b.name.uppercase
        (before.foldl (fun t b => replaceAll b.name.uppercase b.placeholder t) t) = true →
      b.placeholder.length ≤ b.name.uppercase.length) : gainFrom bs t ≤ 0 := by
  induction bs generalizing t with
  | nil => exact Int.le_refl 0
  | cons b bs ih =>
      -- The turns of the later names are turns in what the first one leaves.
      have hrest : gainFrom bs (replaceAll b.name.uppercase b.placeholder t) ≤ 0 :=
        ih (fun before b' after hsplit hoccurs => h (b :: before) b' after (by rw [hsplit]; rfl) hoccurs)
      have hfirst : (occurrences b.name.uppercase t : Int) *
          (b.placeholder.length - b.name.uppercase.length) ≤ 0 := by
        by_cases hoccurs : occursIn b.name.uppercase t = true
        · have hlength := h [] b bs rfl hoccurs
          exact Int.mul_nonpos_of_nonneg_of_nonpos (Int.natCast_nonneg _) (by omega)
        · rw [occurrences_eq_zero (by simpa using hoccurs), Int.natCast_zero, Int.zero_mul]
      rw [gainFrom]
      exact Int.add_nonpos hfirst hrest

/-- Rewriting adds nothing where characters have one capital and names have enough of them. -/
theorem gain_nonpos (hcapitals : ∀ c ∈ text, (capitals c).length = 1)
    (hnames : ∀ before b after, bindings vars = before ++ b :: after →
      occursIn b.name.uppercase (substitute before text) = true →
      b.placeholder.length ≤ b.name.uppercase.length) : gain vars text ≤ 0 := by
  have hsum : (text.map (fun c => ((capitals c).length : Int) - 1)).sum = 0 := by
    apply List.sum_eq_zero
    intro x hx
    obtain ⟨c, hc, rfl⟩ := List.mem_map.mp hx
    rw [hcapitals c hc]
    rfl
  rw [gain]
  split
  · exact Int.le_refl 0
  · rw [hsum, Int.zero_add]
    exact gainFrom_nonpos hnames

end Substitution

namespace Formula

open Substitution Reader

variable {α : Type} {vars : Dict α} {text : Text}

/-- **Where an error of reading with known names lies.**  The fault lies at its position in the rewritten
text.  As a position of the text that was given it is too large by the gain at most, and not at all if each
character has one capital and no name that is replaced has fewer capitals than its placeholder has
characters. -/
theorem position_of_parseWith {limit p : Nat} {fault : Fault}
    (h : parseWith limit vars text = .error (.malformed p fault)) :
    fault.LiesAt (Bracket.ascii (rewritten vars text)) p ∧ (p : Int) ≤ text.length + gain vars text ∧
      ((∀ c ∈ text, (capitals c).length = 1) →
        (∀ before b after, bindings vars = before ++ b :: after →
          occursIn b.name.uppercase (substitute before text) = true →
          b.placeholder.length ≤ b.name.uppercase.length) → p ≤ text.length) := by
  have hread : Tree.parse limit (rewritten vars text) = .error (.malformed p fault) :=
    parseWith_eq_error_iff.mp h
  have hposition := Tree.position_le_of_error hread
  have hlength := length_rewritten vars text
  refine ⟨Tree.liesAt_of_error hread, by omega, ?_⟩
  intro hcapitals hnames
  have hgain := gain_nonpos hcapitals hnames
  omega

/-- A name of one letter. -/
def letterName : Dict Float := Dict.ofList [("a".toList, 1.0)]

/-- A name of four letters. -/
def rateName : Dict Float := Dict.ofList [("rate".toList, 1.0)]

theorem bindings_letterName : bindings letterName = [⟨"a".toList, "v1".toList, 1.0⟩] :=
  bindings_eq_of_perm (.refl _) (List.pairwise_singleton _ _)

theorem bindings_rateName : bindings rateName = [⟨"rate".toList, "v1".toList, 1.0⟩] :=
  bindings_eq_of_perm (.refl _) (List.pairwise_singleton _ _)

/-- A placeholder is read as a variable wherever it stands. -/
theorem descend_placeholder (buffer : Text) (start : Nat) :
    descend ⟨defaultLimit, buffer⟩ 1 start ['v', '1'] = .ok ⟨.var ['v', '1'], ⟨start, start + 2⟩⟩ :=
  descend_of_leaf rfl

/-- The name has more characters than its placeholder, so the position lies in the text that was given.
-/
theorem position_of_parseWith_rateName :
    parseWith defaultLimit rateName "rate*".toList =
        .error (.malformed 2 (.missingRightOperand .multiply)) ∧
      (∀ c ∈ "rate*".toList, (capitals c).length = 1) ∧
      (∀ before b after, bindings rateName = before ++ b :: after →
        occursIn b.name.uppercase (substitute before "rate*".toList) = true →
        b.placeholder.length ≤ b.name.uppercase.length) ∧
      (Fault.missingRightOperand .multiply).LiesAt
        (Bracket.ascii (rewritten rateName "rate*".toList)) 2 ∧
      (2 : Int) ≤ "rate*".toList.length + gain rateName "rate*".toList ∧
      2 ≤ "rate*".toList.length := by
  have hrewritten : rewritten rateName "rate*".toList = "v1*".toList := by
    rw [rewritten, bindings_rateName]
    rfl
  have hascii : Bracket.ascii "v1*".toList = "v1*".toList := by decide
  have hpiece : piece ⟨defaultLimit, "v1*".toList⟩ 0 0 "v1*".toList =
      .ok (.compound "v1*".toList ⟨0, 3⟩) := rfl
  have hitems : itemsFrom (descend ⟨defaultLimit, "v1*".toList⟩ 1) 0 [] 0 "v1*".toList =
      .ok [.operand ⟨.var "v1".toList, ⟨0, 2⟩⟩, .operator .multiply 2] := by
    simp [itemsFrom, operandBetween, descend_placeholder, Text.isBlank, isLayout, Operator.ofChar?]
  have hread : parseWith defaultLimit rateName "rate*".toList =
      .error (.malformed 2 (.missingRightOperand .multiply)) := by
    rw [parseWith_eq_error_iff, hrewritten, Tree.parse, tree_eq_descend, hascii,
      descend_of_compound hpiece, hitems]
    rfl
  have hcodes : "rate*".toList.all (fun c => c.toNat.blt 128) = true := by decide
  have hcapitals : ∀ c ∈ "rate*".toList, (capitals c).length = 1 := by
    intro c hc
    rw [capitals_of_lt (Nat.blt_eq.mp (List.all_eq_true.mp hcodes c hc)), List.length_singleton]
  have hnames : ∀ before b after, bindings rateName = before ++ b :: after →
      occursIn b.name.uppercase (substitute before "rate*".toList) = true →
      b.placeholder.length ≤ b.name.uppercase.length := by
    intro before b after hsplit _
    have hb : b ∈ bindings rateName := hsplit ▸ List.mem_append_cons_self
    rw [bindings_rateName, List.mem_singleton] at hb
    rw [hb]
    decide
  obtain ⟨hlies, hgain, hfits⟩ := position_of_parseWith hread
  exact ⟨hread, hcapitals, hnames, hlies, hgain, hfits hcapitals hnames⟩

/-- **A position can lie beyond the text.**  The name has one character and its placeholder two, so the
missing operand is reported at 5 in a text of four characters. -/
theorem exists_position_beyond :
    parseWith defaultLimit letterName "a+a+".toList = .error (.malformed 5 (.missingRightOperand .add)) ∧
      "a+a+".toList.length < 5 := by
  have hrewritten : rewritten letterName "a+a+".toList = "v1+v1+".toList := by
    rw [rewritten, bindings_letterName]
    rfl
  have hascii : Bracket.ascii "v1+v1+".toList = "v1+v1+".toList := by decide
  have hpiece : piece ⟨defaultLimit, "v1+v1+".toList⟩ 0 0 "v1+v1+".toList =
      .ok (.compound "v1+v1+".toList ⟨0, 6⟩) := rfl
  have hitems : itemsFrom (descend ⟨defaultLimit, "v1+v1+".toList⟩ 1) 0 [] 0 "v1+v1+".toList =
      .ok [.operand ⟨.var "v1".toList, ⟨0, 2⟩⟩, .operator .add 2,
        .operand ⟨.var "v1".toList, ⟨3, 5⟩⟩, .operator .add 5] := by
    simp [itemsFrom, operandBetween, descend_placeholder, Text.isBlank, isLayout, Operator.ofChar?]
  refine ⟨?_, by decide⟩
  rw [parseWith_eq_error_iff, hrewritten, Tree.parse, tree_eq_descend, hascii,
    descend_of_compound hpiece, hitems]
  rfl

end Formula

end InfixFormula

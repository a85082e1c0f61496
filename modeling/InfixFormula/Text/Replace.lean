import InfixFormula.Text.Basic

/-!
# Replacing a stretch of text everywhere

`replaceAll` reads from left to right.  Where the pattern starts, the replacement is written and
reading goes on behind the pattern, so occurrences that overlap an earlier one are not seen, and the
replacement itself is not searched again.  There are no word boundaries.

Main facts: a pattern that does not occur changes nothing (`replaceAll_eq_self`), and an empty
pattern is never replaced (`replaceAll_nil`).
-/

namespace InfixFormula.Text

/-- Whether the pattern stands somewhere in the text. -/
def occursIn (pattern : Text) : Text → Bool
  | [] => pattern.isEmpty
  | c :: t => pattern.isPrefixOf (c :: t) || occursIn pattern t

/-- Replaces every occurrence of the pattern behind the next `skip` characters, which belong to an
occurrence that has been replaced already. -/
def replaceBehind (pattern replacement : Text) : Nat → Text → Text
  | _, [] => []
  | skip + 1, _ :: t => replaceBehind pattern replacement skip t
  | 0, c :: t =>
      if pattern.isPrefixOf (c :: t) then
        replacement ++ replaceBehind pattern replacement (pattern.length - 1) t
      else c :: replaceBehind pattern replacement 0 t

/-- Replaces every occurrence of the pattern, left to right and without overlap. -/
def replaceAll (pattern replacement t : Text) : Text :=
  if pattern.isEmpty then t else replaceBehind pattern replacement 0 t

/-- The empty pattern is not replaced anywhere. -/
@[simp] theorem replaceAll_nil (replacement t : Text) : replaceAll [] replacement t = t := rfl

/-- A pattern that does not occur changes nothing. -/
theorem replaceAll_eq_self {pattern t : Text} (replacement : Text)
    (h : occursIn pattern t = false) : replaceAll pattern replacement t = t := by
  unfold replaceAll
  split
  · rfl
  · induction t with
    | nil => rfl
    | cons c t ih =>
        simp only [occursIn, Bool.or_eq_false_iff] at h
        rw [replaceBehind, if_neg (by simp [h.1]), ih h.2]

end InfixFormula.Text

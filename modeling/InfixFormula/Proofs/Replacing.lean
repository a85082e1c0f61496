import InfixFormula.Text.Replace

/-!
# What replacing leaves alone

The reading of `replaceAll` comes to occurrences of the pattern, each of which becomes the replacement
(`replaceAll_append`), and to characters where none starts, which stay (`replaceAll_cons`).
`induction_on_occurrences` is induction along that reading.

`Replaced pattern replacement t u` says that `u` is `t` with the replacement in place of some occurrences
of the pattern.  It forgets that those of the reading were taken (`replaced_replaceAll`), and keeps what
arguments about the outcome need: where no replacement stands in `u`, the characters of `t` stand.

A character that the pattern lacks splits the work: left and right of it the replacing goes on by itself
(`replaceAll_append_cons`).
-/

namespace InfixFormula.Text

variable {pattern replacement : Text}

/-- The search finds a pattern exactly where it occurs. -/
theorem occursIn_iff {t : Text} : occursIn pattern t = true ↔ pattern <:+: t := by
  induction t with
  | nil => simp [occursIn]
  | cons c t ih =>
      rw [occursIn, Bool.or_eq_true, ih, List.isPrefixOf_iff_prefix, List.infix_cons_iff]

/-- Nothing is looked for in the characters of an occurrence that was found. -/
theorem replaceBehind_append (u t : Text) :
    replaceBehind pattern replacement u.length (u ++ t) =
      replaceBehind pattern replacement 0 t := by
  induction u with
  | nil => rfl
  | cons c u ih => exact ih

theorem replaceAll_empty : replaceAll pattern replacement [] = [] := by
  unfold replaceAll
  split <;> rfl

/-- A pattern with characters is looked for from the start. -/
theorem replaceAll_of_ne_nil (hpattern : pattern ≠ []) (t : Text) :
    replaceAll pattern replacement t = replaceBehind pattern replacement 0 t := by
  rw [replaceAll, if_neg (by simpa using hpattern)]

/-- The pattern at the start is replaced. -/
theorem replaceAll_append (hpattern : pattern ≠ []) (t : Text) :
    replaceAll pattern replacement (pattern ++ t) =
      replacement ++ replaceAll pattern replacement t := by
  rw [replaceAll_of_ne_nil hpattern, replaceAll_of_ne_nil hpattern]
  cases pattern with
  | nil => exact absurd rfl hpattern
  | cons c u =>
      have hprefix : List.isPrefixOf (c :: u) (c :: (u ++ t)) = true :=
        List.isPrefixOf_iff_prefix.mpr ⟨t, rfl⟩
      rw [List.cons_append, replaceBehind, if_pos hprefix, List.length_cons, Nat.add_sub_cancel,
        replaceBehind_append]

/-- A character where the pattern does not start stays. -/
theorem replaceAll_cons {c : Char} {t : Text} (h : ¬ pattern <+: c :: t) :
    replaceAll pattern replacement (c :: t) = c :: replaceAll pattern replacement t := by
  have hpattern : pattern ≠ [] := by
    rintro rfl
    exact h List.nil_prefix
  rw [replaceAll_of_ne_nil hpattern, replaceAll_of_ne_nil hpattern, replaceBehind,
    if_neg (by rwa [List.isPrefixOf_iff_prefix])]

/-- Characters where the pattern does not start stay. -/
theorem replaceAll_append_of_not_prefix {u t : Text}
    (h : ∀ s, s <:+ u → s ≠ [] → ¬ pattern <+: s ++ t) :
    replaceAll pattern replacement (u ++ t) = u ++ replaceAll pattern replacement t := by
  induction u with
  | nil => rfl
  | cons c u ih =>
      have hhere : ¬ pattern <+: c :: (u ++ t) := h (c :: u) List.suffix_rfl (List.cons_ne_nil _ _)
      rw [List.cons_append, replaceAll_cons hhere, List.cons_append,
        ih (fun s hs => h s (hs.trans (List.suffix_cons c u)))]

/-- Induction along the reading from left to right, occurrence by occurrence. -/
theorem induction_on_occurrences {motive : Text → Prop} (hpattern : pattern ≠ []) (nil : motive [])
    (put : ∀ t, motive t → motive (pattern ++ t))
    (keep : ∀ c t, ¬ pattern <+: c :: t → motive t → motive (c :: t)) (t : Text) : motive t := by
  have hpos : 0 < pattern.length := List.length_pos_iff.mpr hpattern
  by_cases h : pattern <+: t
  · obtain ⟨u, hu⟩ := h
    rw [← hu]
    exact put u (induction_on_occurrences hpattern nil put keep u)
  · cases t with
    | nil => exact nil
    | cons c t => exact keep c t h (induction_on_occurrences hpattern nil put keep t)
termination_by t.length
decreasing_by
  · rw [← hu, List.length_append]
    omega
  · rw [List.length_cons]
    omega

/-- A text that is the pattern becomes the replacement. -/
theorem replaceAll_self (hpattern : pattern ≠ []) :
    replaceAll pattern replacement pattern = replacement := by
  have h : replaceAll pattern replacement (pattern ++ []) =
      replacement ++ replaceAll pattern replacement [] := replaceAll_append hpattern []
  rwa [List.append_nil, replaceAll_empty, List.append_nil] at h

/-- The replacement stands in place of some occurrences of the pattern. -/
inductive Replaced (pattern replacement : Text) : Text → Text → Prop where
  | nil : Replaced pattern replacement [] []
  | keep (c : Char) {t u : Text} (h : Replaced pattern replacement t u) :
      Replaced pattern replacement (c :: t) (c :: u)
  | put {t u : Text} (h : Replaced pattern replacement t u) :
      Replaced pattern replacement (pattern ++ t) (replacement ++ u)

/-- Replacing all occurrences is one way to put the replacement for the pattern. -/
theorem replaced_replaceAll (t : Text) :
    Replaced pattern replacement t (replaceAll pattern replacement t) := by
  by_cases hpattern : pattern = []
  · subst hpattern
    rw [replaceAll_nil]
    induction t with
    | nil => exact .nil
    | cons c t ih => exact .keep c ih
  · induction t using induction_on_occurrences hpattern with
    | nil =>
        rw [replaceAll_empty]
        exact .nil
    | put t ih =>
        rw [replaceAll_append hpattern]
        exact ih.put
    | keep c t h ih =>
        rw [replaceAll_cons h]
        exact ih.keep c

/-- A pattern does not reach over a character that it lacks. -/
theorem prefix_append_cons_iff {c : Char} (hc : c ∉ pattern) (t u : Text) :
    pattern <+: t ++ c :: u ↔ pattern <+: t := by
  constructor
  · intro h
    have hcut : t ++ [c] <+: t ++ c :: u := ⟨u, by simp⟩
    rcases List.prefix_or_prefix_of_prefix h hcut with h | h
    · rcases List.prefix_concat_iff.mp h with rfl | h
      · exact absurd (by simp) hc
      · exact h
    · exact absurd (h.subset (by simp)) hc
  · intro h
    exact h.trans (List.prefix_append t _)

/-- Left and right of a character that the pattern lacks, the replacing goes on by itself. -/
theorem replaceAll_append_cons {c : Char} (hc : c ∉ pattern) (t u : Text) :
    replaceAll pattern replacement (t ++ c :: u) =
      replaceAll pattern replacement t ++ c :: replaceAll pattern replacement u := by
  by_cases hpattern : pattern = []
  · subst hpattern
    rfl
  · induction t using induction_on_occurrences hpattern with
    | nil =>
        have h : ¬ pattern <+: c :: u := by
          intro h
          have hnil := (prefix_append_cons_iff hc [] u).mp h
          exact hpattern (List.prefix_nil.mp hnil)
        rw [List.nil_append, replaceAll_cons h, replaceAll_empty, List.nil_append]
    | put t ih =>
        rw [List.append_assoc, replaceAll_append hpattern, ih, replaceAll_append hpattern,
          List.append_assoc]
    | keep d t h ih =>
        have h' : ¬ pattern <+: d :: (t ++ c :: u) := by
          rwa [← List.cons_append, prefix_append_cons_iff hc]
        rw [List.cons_append, replaceAll_cons h', ih, replaceAll_cons h, List.cons_append]

/-- What shares no character with the pattern stays in front of a text. -/
theorem replaceAll_append_left {w : Text} (hw : ∀ c ∈ w, c ∉ pattern) (t : Text) :
    replaceAll pattern replacement (w ++ t) = w ++ replaceAll pattern replacement t := by
  induction w with
  | nil => rfl
  | cons c w ih =>
      rw [List.forall_mem_cons] at hw
      have hsplit : replaceAll pattern replacement ([] ++ c :: (w ++ t)) =
          replaceAll pattern replacement [] ++ c :: replaceAll pattern replacement (w ++ t) :=
        replaceAll_append_cons hw.1 [] (w ++ t)
      rwa [List.nil_append, replaceAll_empty, ih hw.2] at hsplit

/-- What shares no character with the pattern stays behind a text. -/
theorem replaceAll_append_right {w : Text} (hw : ∀ c ∈ w, c ∉ pattern) (t : Text) :
    replaceAll pattern replacement (t ++ w) = replaceAll pattern replacement t ++ w := by
  cases w with
  | nil => rw [List.append_nil, List.append_nil]
  | cons c w =>
      rw [List.forall_mem_cons] at hw
      have hrest : replaceAll pattern replacement (w ++ []) = w ++ replaceAll pattern replacement [] :=
        replaceAll_append_left hw.2 []
      rw [List.append_nil, replaceAll_empty, List.append_nil] at hrest
      rw [replaceAll_append_cons hw.1, hrest]

/-- A character that the pattern lacks stays. -/
theorem mem_replaceAll_of_not_mem {c : Char} (hc : c ∉ pattern) {t : Text} (hmem : c ∈ t) :
    c ∈ replaceAll pattern replacement t := by
  obtain ⟨before, after, rfl⟩ := List.append_of_mem hmem
  rw [replaceAll_append_cons hc]
  exact List.mem_append_right _ List.mem_cons_self

/-- Where the pattern occurs, the replacement comes in. -/
theorem mem_replaceAll_of_occurs (hpattern : pattern ≠ []) {c : Char} (hc : c ∈ replacement) {t : Text}
    (h : pattern <:+: t) : c ∈ replaceAll pattern replacement t := by
  induction t using induction_on_occurrences hpattern with
  | nil => exact absurd (List.infix_nil.mp h) hpattern
  | put t ih =>
      rw [replaceAll_append hpattern]
      exact List.mem_append_left _ hc
  | keep d t hd ih =>
      have hrest : pattern <:+: t := (List.infix_cons_iff.mp h).resolve_left hd
      rw [replaceAll_cons hd]
      exact List.mem_cons_of_mem _ (ih hrest)

/-- A pattern is seen alike in a text whose characters were changed into none of its own. -/
theorem prefix_map_iff {g : Char → Char} (hg : ∀ c ∈ pattern, ∀ d, g d = c ↔ d = c) (t : Text) :
    pattern <+: t.map g ↔ pattern <+: t := by
  induction pattern generalizing t with
  | nil => simp
  | cons c u ih =>
      rw [List.forall_mem_cons] at hg
      cases t with
      | nil => simp
      | cons d t =>
          rw [List.map_cons, List.cons_prefix_cons, List.cons_prefix_cons, ih hg.2, eq_comm,
            hg.1 d, eq_comm]

/-- Replacing does not see a change of characters that shows and hides no occurrence of the pattern. -/
theorem replaceAll_map {g : Char → Char} (hreplacement : replacement.map g = replacement) {t : Text}
    (h : ∀ u, u <:+ t → (pattern <+: u.map g ↔ pattern <+: u)) :
    (replaceAll pattern replacement t).map g = replaceAll pattern replacement (t.map g) := by
  by_cases hnil : pattern = []
  · subst hnil
    rfl
  · induction t using induction_on_occurrences hnil with
    | nil => rw [List.map_nil, replaceAll_empty, List.map_nil]
    | put t ih =>
        have hkept : pattern.map g = pattern := by
          have hstart := (h (pattern ++ t) List.suffix_rfl).mpr (List.prefix_append _ _)
          rw [List.map_append] at hstart
          have hshorter := List.prefix_of_prefix_length_le hstart (List.prefix_append _ _) (by simp)
          exact (hshorter.eq_of_length (by simp)).symm
        rw [replaceAll_append hnil, List.map_append, List.map_append, hkept, hreplacement,
          ih (fun u hu => h u (hu.trans (List.suffix_append _ _))), replaceAll_append hnil]
    | keep c t hc ih =>
        have hmap : ¬ pattern <+: g c :: t.map g := by
          rwa [← List.map_cons, h (c :: t) List.suffix_rfl]
        rw [replaceAll_cons hc, List.map_cons, List.map_cons,
          ih (fun u hu => h u (hu.trans (List.suffix_cons c t))), replaceAll_cons hmap]

end InfixFormula.Text

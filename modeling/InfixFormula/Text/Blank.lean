import InfixFormula.Text.Basic

/-!
# Layout and blank text

Layout in a formula is any character with the Unicode property `White_Space`: the ASCII blanks, the
no-break and ideographic spaces and the line separators, but none of the invisible characters that
lack the property (zero-width space, byte order mark, the separators below the space).  A text is
blank if it is all layout.

A text is tight if it is not empty and has no layout at its ends.

Main facts: a text is its margin followed by what trimming at the start leaves
(`margin_trimStart`), trimming leaves no layout at the start (`head_trimStart`), and only a blank text
is trimmed to nothing (`trim_eq_nil_iff`).  Trimming finds the one way to write a text as a tight text
between layout (`exists_eq_margin_trim`, `trim_between`, `margin_between`).
-/

namespace InfixFormula

/-- The characters with the property `White_Space`. -/
def isLayout (c : Char) : Bool :=
  let n := c.toNat
  (0x9 ≤ n && n ≤ 0xD) || n == 0x20 || n == 0x85 || n == 0xA0 || n == 0x1680
    || (0x2000 ≤ n && n ≤ 0x200A) || n == 0x2028 || n == 0x2029 || n == 0x202F || n == 0x205F
    || n == 0x3000

namespace Text

/-- Whether nothing but layout stands in the text. -/
def isBlank (t : Text) : Bool := t.all isLayout

/-- The layout that the text starts with. -/
def margin (t : Text) : Text := t.takeWhile isLayout

/-- The text without the layout it starts with. -/
def trimStart (t : Text) : Text := t.dropWhile isLayout

/-- The text without the layout it ends with. -/
def trimEnd (t : Text) : Text := (t.reverse.dropWhile isLayout).reverse

/-- The text without the layout at its two ends. -/
def trim (t : Text) : Text := t.trimStart.trimEnd

/-- The margin and the rest are the text. -/
theorem margin_trimStart (t : Text) : t.margin ++ t.trimStart = t :=
  List.takeWhile_append_dropWhile

theorem length_trimStart_le (t : Text) : t.trimStart.length ≤ t.length :=
  (List.dropWhile_sublist _).length_le

theorem length_trimEnd_le (t : Text) : t.trimEnd.length ≤ t.length := by
  simpa [trimEnd] using (List.dropWhile_sublist (l := t.reverse) isLayout).length_le

theorem length_trim_le (t : Text) : t.trim.length ≤ t.length :=
  Nat.le_trans (length_trimEnd_le _) (length_trimStart_le _)

/-- What trimming at the start leaves does not start with layout. -/
theorem head_trimStart {t u : Text} {c : Char} (h : t.trimStart = c :: u) :
    isLayout c = false := by
  induction t with
  | nil => simp [trimStart] at h
  | cons d t ih =>
      rw [trimStart, List.dropWhile_cons] at h
      split at h
      · exact ih h
      · next hd => cases h; simpa using hd

/-- Trimming leaves nothing of blank texts, and of no others. -/
theorem trimStart_eq_nil_iff (t : Text) : t.trimStart = [] ↔ t.isBlank = true := by
  induction t with
  | nil => simp [trimStart, isBlank]
  | cons c t ih =>
      rw [trimStart, List.dropWhile_cons]
      cases hc : isLayout c with
      | false => simp [isBlank, hc]
      | true =>
          rw [if_pos rfl]
          exact ih.trans (by simp [isBlank, hc])

/-- Only a blank text is trimmed to nothing. -/
theorem trim_eq_nil_iff (t : Text) : t.trim = [] ↔ t.isBlank = true := by
  rw [← trimStart_eq_nil_iff]
  constructor
  · intro h
    cases hs : t.trimStart with
    | nil => rfl
    | cons c u =>
        have hc := head_trimStart hs
        have hr : trimStart (c :: u).reverse = [] := by
          rw [trim, hs] at h
          simpa [trimEnd, trimStart] using h
        rw [trimStart_eq_nil_iff] at hr
        simp [isBlank, hc] at hr
  · intro h
    simp [trim, trimEnd, h]

/-- A text is blank if nothing is left of it between its margins. -/
theorem isEmpty_trim (t : Text) : t.trim.isEmpty = t.isBlank := by
  rw [Bool.eq_iff_iff, List.isEmpty_iff, trim_eq_nil_iff]

/-- A text is blank if both of its parts are. -/
theorem isBlank_append (t u : Text) : (t ++ u).isBlank = (t.isBlank && u.isBlank) :=
  List.all_append

/-- Blank texts are blank in either direction. -/
theorem isBlank_reverse (t : Text) : isBlank t.reverse = t.isBlank :=
  List.all_reverse

/-- Nothing but layout is trimmed off. -/
theorem isBlank_margin (t : Text) : t.margin.isBlank = true := by
  rw [isBlank, List.all_eq_true]
  intro c hc
  induction t with
  | nil => simp [margin] at hc
  | cons d t ih =>
      rw [margin, List.takeWhile_cons] at hc
      split at hc
      · next hd =>
          rcases List.mem_cons.mp hc with rfl | hc
          · exact hd
          · exact ih hc
      · simp at hc

/-- A text that is not empty and has no layout at its ends. -/
structure IsTight (t : Text) : Prop where
  ne_nil : t ≠ []
  head : ∀ c ∈ t.head?, isLayout c = false
  last : ∀ c ∈ t.getLast?, isLayout c = false

/-- Layout in front of a character that is none is trimmed off, and no more. -/
theorem trimStart_append {w t : Text} (hw : w.isBlank = true)
    (ht : ∀ c ∈ t.head?, isLayout c = false) : (w ++ t).trimStart = t := by
  induction w with
  | nil =>
      cases t with
      | nil => rfl
      | cons c t =>
          have hc : isLayout c = false := ht c rfl
          simp [trimStart, hc]
  | cons c w ih =>
      simp only [isBlank, List.all_cons, Bool.and_eq_true] at hw
      rw [trimStart, List.cons_append, List.dropWhile_cons, if_pos hw.1]
      exact ih hw.2

/-- Layout behind a character that is none is trimmed off, and no more. -/
theorem trimEnd_append {w t : Text} (hw : w.isBlank = true)
    (ht : ∀ c ∈ t.getLast?, isLayout c = false) : (t ++ w).trimEnd = t := by
  have hw : isBlank w.reverse = true := by rwa [isBlank_reverse]
  have ht : ∀ c ∈ t.reverse.head?, isLayout c = false := by rwa [List.head?_reverse]
  have hstart := trimStart_append hw ht
  rw [trimStart] at hstart
  rw [trimEnd, List.reverse_append, hstart, List.reverse_reverse]

/-- Whatever follows a tight text, no layout stands in front. -/
theorem IsTight.head_append {t : Text} (ht : t.IsTight) (u : Text) :
    ∀ c ∈ (t ++ u).head?, isLayout c = false := by
  cases t with
  | nil => exact absurd rfl ht.ne_nil
  | cons c t => exact ht.head

/-- Two tight texts make one with anything between them. -/
theorem IsTight.append {t u : Text} (ht : t.IsTight) (v : Text) (hu : u.IsTight) :
    (t ++ v ++ u).IsTight where
  ne_nil := by simp [ht.ne_nil]
  head := by
    rw [List.append_assoc]
    exact ht.head_append (v ++ u)
  last := by
    intro c hc
    apply hu.last
    obtain ⟨d, hd⟩ := Option.ne_none_iff_exists'.mp (mt List.getLast?_eq_none_iff.mp hu.ne_nil)
    rw [List.getLast?_append, hd] at hc
    rw [hd]
    exact hc

/-- Trimming takes the layout off a tight text. -/
theorem trim_between {w t w' : Text} (hw : w.isBlank = true) (ht : t.IsTight)
    (hw' : w'.isBlank = true) : (w ++ t ++ w').trim = t := by
  rw [trim, List.append_assoc, trimStart_append hw (ht.head_append w'), trimEnd_append hw' ht.last]

/-- Layout in front of a tight text is its margin. -/
theorem margin_between {w t : Text} (hw : w.isBlank = true) (ht : t.IsTight) (w' : Text) :
    (w ++ t ++ w').margin = w := by
  have hsplit := margin_trimStart (w ++ t ++ w')
  rw [List.append_assoc, trimStart_append hw (ht.head_append w')] at hsplit
  rw [List.append_assoc]
  exact List.append_cancel_right hsplit

/-- A tight text between layout is not blank. -/
theorem isBlank_between {w t w' : Text} (hw : w.isBlank = true) (ht : t.IsTight)
    (hw' : w'.isBlank = true) : isBlank (w ++ t ++ w') = false := by
  rw [Bool.eq_false_iff, Ne, ← trim_eq_nil_iff, trim_between hw ht hw']
  exact ht.ne_nil

/-- A trimmed text does not start with layout. -/
theorem head?_trimStart (t : Text) : ∀ c ∈ t.trimStart.head?, isLayout c = false := by
  intro c hc
  cases hs : t.trimStart with
  | nil => simp [hs] at hc
  | cons d u =>
      obtain rfl : d = c := by simpa [hs] using hc
      exact head_trimStart hs

/-- Trimming leaves a tight text of every text that is not blank. -/
theorem isTight_trim {t : Text} (h : t.isBlank = false) : t.trim.IsTight := by
  have hne : t.trim ≠ [] := by
    intro hnil
    rw [trim_eq_nil_iff, h] at hnil
    cases hnil
  refine ⟨hne, ?_, ?_⟩
  · intro c hc
    apply head?_trimStart t
    obtain ⟨u, hu⟩ : t.trim <+: t.trimStart := by
      rw [trim, trimEnd, ← List.reverse_suffix, List.reverse_reverse]
      exact List.dropWhile_suffix _
    rw [← hu, List.head?_append, Option.mem_def.mp hc]
    rfl
  · intro c hc
    rw [trim, trimEnd, List.getLast?_reverse] at hc
    exact head?_trimStart _ c hc

/-- A text is its trimmed self between layout. -/
theorem exists_eq_margin_trim (t : Text) :
    ∃ w : Text, w.isBlank = true ∧ t = t.margin ++ t.trim ++ w := by
  refine ⟨(margin t.trimStart.reverse).reverse, ?_, ?_⟩
  · rw [isBlank_reverse]
    exact isBlank_margin _
  · have hsplit := congrArg List.reverse (margin_trimStart t.trimStart.reverse)
    rw [List.reverse_append, List.reverse_reverse] at hsplit
    rw [List.append_assoc, trim, trimEnd, ← trimStart, hsplit, margin_trimStart]

/-- Trimming adds no characters. -/
theorem mem_of_mem_trim {t : Text} {c : Char} (h : c ∈ t.trim) : c ∈ t := by
  obtain ⟨w, -, hw⟩ := exists_eq_margin_trim t
  rw [hw]
  exact List.mem_append_left w (List.mem_append_right _ h)

end Text

end InfixFormula

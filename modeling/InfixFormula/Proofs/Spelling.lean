import InfixFormula.Proofs.Names
import InfixFormula.Proofs.Replacing

/-!
# Phrases with their names spelled anew

`Phrase.spell` writes a phrase with another text in place of each name and everything else as it stands.
Writing a phrase in capitals is spelling its names in capitals (`uppercase_text`), and replacing a name in
a text spelled in this way is replacing it in the spelling of each name (`replaceAll_spell`): the pattern
reaches over no bracket, operator or layout, and is found in no literal.  So substituting known names in a
phrase is substituting them in each name by itself (`substitute_text`).
-/

namespace InfixFormula

open Text

/-- No capital is layout, a bracket, an operator, or part of a literal. -/
theorem not_isUpper_of_mark {c : Char}
    (h : isLayout c = true ∨ Literal.isDelimiter c = true ∨ c = '%' ∨ c.isDigit = true ∨ c = '.') :
    c.isUpper = false := by
  have hcodes : ∀ code < 91, 65 ≤ code →
      ¬ (isLayout (Char.ofNat code) = true ∨ Literal.isDelimiter (Char.ofNat code) = true ∨
        Char.ofNat code = '%' ∨ (Char.ofNat code).isDigit = true ∨ Char.ofNat code = '.') := by
    decide
  by_contra hupper
  rw [Bool.not_eq_false] at hupper
  obtain ⟨hlow, hhigh⟩ : c.val ≥ 'A'.val ∧ c.val ≤ 'Z'.val := of_decide_eq_true hupper
  have hlow : 65 ≤ c.toNat := hlow
  have hhigh : c.toNat ≤ 90 := hhigh
  have hcode := hcodes c.toNat (by omega) hlow
  rw [Char.ofNat_toNat] at hcode
  exact hcode h

/-- Writing a name of ASCII characters in capitals gives a name. -/
theorem IsName.uppercase {n : Text} (hn : IsName n) (hascii : ∀ c ∈ n, c.toNat < 128) :
    IsName n.uppercase := by
  have hkept : ∀ d ∈ n.uppercase, d.isUpper = false → d ∈ n := by
    intro d hd hupper
    obtain ⟨c, hc, hd⟩ := List.mem_flatMap.mp hd
    have hcode := hascii c hc
    have hsame := (Uppercase.toUpper_ascii c.toNat hcode).2.2
    rw [capitals_of_lt hcode, List.mem_singleton] at hd
    rw [Char.ofNat_toNat, ← hd] at hsame
    rwa [hsame hupper]
  refine ⟨uppercase_ne_nil hn.ne_nil, ?_, ?_, ?_, ?_⟩
  · intro d hd
    by_contra hlayout
    rw [Bool.not_eq_false] at hlayout
    have hmem := hkept d hd (not_isUpper_of_mark (.inl hlayout))
    rw [hn.layout d hmem] at hlayout
    cases hlayout
  · intro d hd
    by_contra hdelimiter
    rw [Bool.not_eq_false] at hdelimiter
    have hmem := hkept d hd (not_isUpper_of_mark (.inr (.inl hdelimiter)))
    rw [hn.delimiter d hmem] at hdelimiter
    cases hdelimiter
  · exact fun hd => hn.percent (hkept '%' hd rfl)
  · intro hnumeric
    apply hn.other
    intro c hc
    have hmem : c.toUpper ∈ n.uppercase :=
      List.mem_flatMap.mpr ⟨c, hc, by rw [capitals_of_lt (hascii c hc)]; exact List.mem_singleton_self _⟩
    have hupper : c.toUpper.isUpper = false := not_isUpper_of_mark (.inr (.inr (.inr (hnumeric _ hmem))))
    have hsame := (Uppercase.toUpper_ascii c.toNat (hascii c hc)).2.2
    rw [Char.ofNat_toNat] at hsame
    rw [← hsame hupper]
    exact hnumeric _ hmem

/-- ASCII letters have one capital each. -/
theorem Text.length_uppercase {t : Text} (hascii : ∀ c ∈ t, c.toNat < 128) :
    t.uppercase.length = t.length := by
  induction t with
  | nil => rfl
  | cons c t ih =>
      rw [List.forall_mem_cons] at hascii
      rw [uppercase_cons, capitals_of_lt hascii.1, List.length_append, ih hascii.2, List.length_singleton,
        List.length_cons, Nat.add_comm]

namespace Leaf

/-- The leaf with another text if it is a name. -/
def spell (s : Text → Text) : Leaf → Text
  | number d _ => d.text
  | percentage d _ => d.text ++ ['%']
  | name n _ => s n

/-- Apart from a sign and a percent sign, a literal is digits and a point. -/
theorem mem_text_of_value? {l : Leaf} {x : Float} (hl : l.value? = some x) {c : Char} (hc : c ∈ l.text) :
    c = '-' ∨ c = '%' ∨ c.isDigit = true ∨ c = '.' := by
  have hbody : c = '-' ∨ c ∈ l.body := by
    rw [text_eq] at hc
    split at hc
    · exact List.mem_cons.mp hc
    · exact .inr hc
  rcases hbody with hminus | hbody
  · exact .inl hminus
  · cases l with
    | number d hd => exact .inr (.inr (Decimal.mem_magnitudeText hd hbody))
    | percentage d hd =>
        rcases List.mem_append.mp hbody with hbody | hbody
        · exact .inr (.inr (Decimal.mem_magnitudeText hd.toIsNumber hbody))
        · exact .inr (.inl (List.mem_singleton.mp hbody))
    | name n hn => cases hl

/-- A literal is its own spelling. -/
theorem spell_of_value? {l : Leaf} {x : Float} (hl : l.value? = some x) (s : Text → Text) :
    l.spell s = l.text := by
  cases l with
  | number d hd => rfl
  | percentage d hd => rfl
  | name n hn => cases hl

/-- Capitals leave numbers alone, and spell a name in capitals. -/
theorem uppercase_text (l : Leaf) : l.text.uppercase = l.spell Text.uppercase := by
  cases hl : l.value? with
  | some x =>
      rw [spell_of_value? hl]
      apply Text.uppercase_eq_self
      intro c hc
      rcases mem_text_of_value? hl hc with rfl | rfl | hdigit | rfl
      · rfl
      · rfl
      · exact capitals_of_isDigit hdigit
      · rfl
  | none =>
      cases l with
      | number d hd => cases hl
      | percentage d hd => cases hl
      | name n hn => rfl

/-- What is replaced where a name stood is found in no literal. -/
theorem replaceAll_spell {pattern : Text} (hpattern : IsName pattern) (replacement : Text)
    (s : Text → Text) (l : Leaf) :
    replaceAll pattern replacement (l.spell s) =
      l.spell (fun n => replaceAll pattern replacement (s n)) := by
  cases hl : l.value? with
  | some x =>
      rw [spell_of_value? hl, spell_of_value? hl]
      apply replaceAll_eq_self
      rw [← Bool.not_eq_true, occursIn_iff]
      intro hoccurs
      apply hpattern.other
      intro c hc
      rcases mem_text_of_value? hl (hoccurs.subset hc) with rfl | rfl | hdigit
      · cases hpattern.delimiter _ hc
      · exact absurd hc hpattern.percent
      · exact hdigit
  | none =>
      cases l with
      | number d hd => cases hl
      | percentage d hd => cases hl
      | name n hn => rfl

end Leaf

namespace Phrase

/-- The characters of the phrase, with another text in place of each name. -/
def spell (s : Text → Text) : {k : Kind} → Phrase k → Text
  | _, leaf l _ => l.spell s
  | _, pair inside => '(' :: (inside.spell s ++ [')'])
  | _, operation op left before after right _ _ =>
      left.spell s ++ before.text ++ op.symbol :: (after.text ++ right.spell s)
  | _, sole before l after => before.text ++ l.spell s ++ after.text
  | _, compound before inner after _ _ => before.text ++ inner.spell s ++ after.text

/-- A phrase in capitals has its names in capitals. -/
theorem uppercase_text {k : Kind} (p : Phrase k) : p.text.uppercase = p.spell Text.uppercase := by
  have hlayout : ∀ w : Layout, w.text.uppercase = w.text :=
    fun w => Text.uppercase_eq_self (fun c hc => capitals_layout (List.all_eq_true.mp w.blank c hc))
  have hsymbol : ∀ op : Operator, capitals op.symbol = [op.symbol] := by
    intro op
    cases op <;> rfl
  have hopening : capitals '(' = ['('] := rfl
  have hclosing : capitals ')' = [')'] := rfl
  induction p with
  | leaf l hl => exact l.uppercase_text
  | pair inside ih => simp [text, spell, hopening, hclosing, ih]
  | operation op left before after right hleft hright ihl ihr =>
      simp [text, spell, hsymbol, hlayout, ihl, ihr]
  | sole before l after => simp [text, spell, hlayout, l.uppercase_text]
  | compound before inner after hkind hcontent ih => simp [text, spell, hlayout, ih]

/-- **Replacing a name respells the names**, and touches nothing else. -/
theorem replaceAll_spell {pattern : Text} (hpattern : IsName pattern) (replacement : Text)
    (s : Text → Text) {k : Kind} (p : Phrase k) :
    replaceAll pattern replacement (p.spell s) =
      p.spell (fun n => replaceAll pattern replacement (s n)) := by
  have hlayout : ∀ w : Layout, ∀ c ∈ w.text, c ∉ pattern := by
    intro w c hc hmem
    have hblank := List.all_eq_true.mp w.blank c hc
    rw [hpattern.layout c hmem] at hblank
    cases hblank
  have hdelimiter : ∀ c, Literal.isDelimiter c = true → c ∉ pattern := by
    intro c hc hmem
    rw [hpattern.delimiter c hmem] at hc
    cases hc
  have hbetween : ∀ (before after : Layout) (t : Text),
      replaceAll pattern replacement (before.text ++ t ++ after.text) =
        before.text ++ replaceAll pattern replacement t ++ after.text := by
    intro before after t
    rw [replaceAll_append_right (hlayout after), replaceAll_append_left (hlayout before)]
  induction p with
  | leaf l hl => exact l.replaceAll_spell hpattern replacement s
  | pair inside ih =>
      have hopening : replaceAll pattern replacement ([] ++ '(' :: (inside.spell s ++ ')' :: [])) =
          replaceAll pattern replacement [] ++
            '(' :: replaceAll pattern replacement (inside.spell s ++ ')' :: []) :=
        replaceAll_append_cons (hdelimiter '(' rfl) _ _
      rwa [List.nil_append, replaceAll_empty, List.nil_append, replaceAll_append_cons (hdelimiter ')' rfl),
        replaceAll_empty, ih] at hopening
  | operation op left before after right hleft hright ihl ihr =>
      rw [spell, replaceAll_append_cons (hdelimiter _ (Literal.isDelimiter_symbol op)),
        replaceAll_append_right (hlayout before), replaceAll_append_left (hlayout after), ihl, ihr, spell]
  | sole before l after => rw [spell, hbetween, l.replaceAll_spell hpattern, spell]
  | compound before inner after hkind hcontent ih => rw [spell, hbetween, ih, spell]

open Substitution in
/-- **Known names are substituted in each name by itself.** -/
theorem substitute_text {α : Type} {bs : List (Binding α)} (hbs : ∀ b ∈ bs, IsName b.name.uppercase)
    {k : Kind} (p : Phrase k) : substitute bs p.text = p.spell (substitute bs) := by
  have hfold : ∀ s : Text → Text,
      bs.foldl (fun t b => replaceAll b.name.uppercase b.placeholder t) (p.spell s) =
        p.spell (fun n => bs.foldl (fun t b => replaceAll b.name.uppercase b.placeholder t) (s n)) := by
    induction bs with
    | nil => exact fun s => rfl
    | cons b bs ih =>
        rw [List.forall_mem_cons] at hbs
        intro s
        rw [List.foldl_cons, p.replaceAll_spell hbs.1, ih hbs.2]
        rfl
  rw [substitute, p.uppercase_text, hfold]
  rfl

end Phrase

end InfixFormula

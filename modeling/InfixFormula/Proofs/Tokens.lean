import InfixFormula.Proofs.Names
import InfixFormula.Proofs.Replacing

/-!
# Placeholders as tokens

One can substitute known names with placeholders that later names do not see: a text of parts, which are
characters of the text in capitals and tokens, and a name is looked for only in the characters between two
tokens (`Part.replaceAll`, `substituteParts`).  The parts remember what the tokens stand for, so the text in
capitals can be read off them at any time, and the tokens are those of earlier names (`Tokenized`).

The substitution works on plain text instead, where a later name may start in the digits of a placeholder
and go on behind it.  This takes an end of the placeholder and what follows the earlier name in the text to
make up the later name (`Crosses`).  Where no two names cross like that, the two ways of substituting give
the same text (`substitute_eq_written`): a name has no small v, so it does not reach into a placeholder
from the left, and it does not lie in one, since names that are numbers are left alone.
-/

namespace InfixFormula

open Text

/-- What a rewritten text is made of: characters of the text in capitals, and placeholders, each with the
capitals that it stands for. -/
inductive Part where
  | char (c : Char)
  | token (capitals placeholder : Text)

namespace Part

/-- The text with the placeholders. -/
def written : List Part → Text
  | [] => []
  | char c :: ps => c :: written ps
  | token _ p :: ps => p ++ written ps

/-- The text with what the placeholders stand for. -/
def origin : List Part → Text
  | [] => []
  | char c :: ps => c :: origin ps
  | token k _ :: ps => k ++ origin ps

/-- The characters up to the first token. -/
def stretch : List Part → Text
  | char c :: ps => c :: stretch ps
  | _ => []

/-- Puts tokens in place of the pattern behind the next `skip` parts, which belong to an occurrence that
has been replaced already. -/
def replaceBehind (pattern replacement : Text) : Nat → List Part → List Part
  | _, [] => []
  | skip + 1, _ :: ps => replaceBehind pattern replacement skip ps
  | 0, token k p :: ps => token k p :: replaceBehind pattern replacement 0 ps
  | 0, char c :: ps =>
      if pattern.isPrefixOf (stretch (char c :: ps)) then
        token pattern replacement :: replaceBehind pattern replacement (pattern.length - 1) ps
      else char c :: replaceBehind pattern replacement 0 ps

/-- Puts tokens in place of the pattern where it stands between tokens, from left to right and without
overlap. -/
def replaceAll (pattern replacement : Text) (ps : List Part) : List Part :=
  if pattern.isEmpty then ps else replaceBehind pattern replacement 0 ps

variable {pattern replacement : Text}

/-- A pattern starts the stretch if its characters are the first parts. -/
theorem prefix_stretch_iff {ps : List Part} :
    pattern <+: stretch ps ↔ ∃ qs, ps = pattern.map char ++ qs := by
  induction pattern generalizing ps with
  | nil => simp
  | cons c u ih =>
      cases ps with
      | nil => simp [stretch]
      | cons p ps =>
          cases p with
          | char d => simp [stretch, List.cons_prefix_cons, ih, eq_comm]
          | token k p => simp [stretch]

@[simp] theorem written_append (ps qs : List Part) : written (ps ++ qs) = written ps ++ written qs := by
  induction ps with
  | nil => rfl
  | cons p ps ih => cases p <;> simp [written, ih]

@[simp] theorem origin_append (ps qs : List Part) : origin (ps ++ qs) = origin ps ++ origin qs := by
  induction ps with
  | nil => rfl
  | cons p ps ih => cases p <;> simp [origin, ih]

@[simp] theorem written_map_char (t : Text) : written (t.map char) = t := by
  induction t with
  | nil => rfl
  | cons c t ih => rw [List.map_cons, written, ih]

@[simp] theorem origin_map_char (t : Text) : origin (t.map char) = t := by
  induction t with
  | nil => rfl
  | cons c t ih => rw [List.map_cons, origin, ih]

/-- The characters before the first token are as they were in the text. -/
theorem stretch_prefix_origin (ps : List Part) : stretch ps <+: origin ps := by
  induction ps with
  | nil => exact List.prefix_rfl
  | cons p ps ih =>
      cases p with
      | char c => exact (List.prefix_cons_inj c).mpr ih
      | token k p => exact List.nil_prefix

/-- Nothing is looked for in the characters of an occurrence that was found. -/
theorem replaceBehind_append (u : Text) (ps : List Part) :
    replaceBehind pattern replacement u.length (u.map char ++ ps) =
      replaceBehind pattern replacement 0 ps := by
  induction u with
  | nil => rfl
  | cons c u ih => exact ih

/-- Without parts there is nothing to replace. -/
theorem replaceAll_nil : replaceAll pattern replacement [] = [] := by
  unfold replaceAll
  split <;> rfl

/-- A pattern with characters is looked for from the first part on. -/
theorem replaceAll_of_ne_nil (hpattern : pattern ≠ []) (ps : List Part) :
    replaceAll pattern replacement ps = replaceBehind pattern replacement 0 ps := by
  rw [replaceAll, if_neg (by simpa using hpattern)]

/-- Tokens stay, and nothing is looked for inside them. -/
theorem replaceAll_token (k p : Text) (ps : List Part) :
    replaceAll pattern replacement (token k p :: ps) =
      token k p :: replaceAll pattern replacement ps := by
  unfold replaceAll
  split <;> rfl

/-- The pattern at the start becomes a token. -/
theorem replaceAll_append (hpattern : pattern ≠ []) (ps : List Part) :
    replaceAll pattern replacement (pattern.map char ++ ps) =
      token pattern replacement :: replaceAll pattern replacement ps := by
  rw [replaceAll_of_ne_nil hpattern, replaceAll_of_ne_nil hpattern]
  cases pattern with
  | nil => exact absurd rfl hpattern
  | cons c u =>
      have hprefix : List.isPrefixOf (c :: u) (stretch (char c :: (u.map char ++ ps))) = true :=
        List.isPrefixOf_iff_prefix.mpr (prefix_stretch_iff.mpr ⟨ps, rfl⟩)
      rw [List.map_cons, List.cons_append, replaceBehind, if_pos hprefix, List.length_cons,
        Nat.add_sub_cancel, replaceBehind_append]

/-- A character where the pattern does not start stays. -/
theorem replaceAll_char {c : Char} {ps : List Part} (h : ¬ pattern <+: stretch (char c :: ps)) :
    replaceAll pattern replacement (char c :: ps) = char c :: replaceAll pattern replacement ps := by
  have hpattern : pattern ≠ [] := by
    rintro rfl
    exact h List.nil_prefix
  rw [replaceAll_of_ne_nil hpattern, replaceAll_of_ne_nil hpattern, replaceBehind,
    if_neg (by rwa [List.isPrefixOf_iff_prefix])]

/-- Induction along the reading from left to right, part by part and occurrence by occurrence. -/
theorem induction_on_occurrences {motive : List Part → Prop} (hpattern : pattern ≠ []) (nil : motive [])
    (token : ∀ k p ps, motive ps → motive (token k p :: ps))
    (put : ∀ ps, motive ps → motive (pattern.map char ++ ps))
    (keep : ∀ c ps, ¬ pattern <+: stretch (char c :: ps) → motive ps → motive (char c :: ps))
    (ps : List Part) : motive ps := by
  have hpos : 0 < pattern.length := List.length_pos_iff.mpr hpattern
  by_cases h : pattern <+: stretch ps
  · obtain ⟨qs, hqs⟩ := prefix_stretch_iff.mp h
    rw [hqs]
    exact put qs (induction_on_occurrences hpattern nil token put keep qs)
  · cases ps with
    | nil => exact nil
    | cons p ps =>
        cases p with
        | char c => exact keep c ps h (induction_on_occurrences hpattern nil token put keep ps)
        | token k p => exact token k p ps (induction_on_occurrences hpattern nil token put keep ps)
termination_by ps.length
decreasing_by
  · rw [hqs, List.length_append, List.length_map]
    omega
  · rw [List.length_cons]
    omega
  · rw [List.length_cons]
    omega

/-- What the parts stand for stays the same. -/
theorem origin_replaceAll (ps : List Part) : origin (replaceAll pattern replacement ps) = origin ps := by
  by_cases hpattern : pattern = []
  · subst hpattern
    rfl
  · induction ps using induction_on_occurrences hpattern with
    | nil => rw [replaceAll_nil]
    | token k p ps ih => rw [replaceAll_token, origin, ih, origin]
    | put ps ih => rw [replaceAll_append hpattern, origin, ih, origin_append, origin_map_char]
    | keep c ps h ih => rw [replaceAll_char h, origin, ih, origin]

/-- Every token was there before or stands for the pattern. -/
theorem of_token_mem_replaceAll {k p : Text} {ps : List Part}
    (h : token k p ∈ replaceAll pattern replacement ps) :
    token k p ∈ ps ∨ k = pattern ∧ p = replacement := by
  by_cases hpattern : pattern = []
  · subst hpattern
    exact .inl h
  · induction ps using induction_on_occurrences hpattern with
    | nil =>
        rw [replaceAll_nil] at h
        exact .inl h
    | token k' p' ps ih =>
        rw [replaceAll_token] at h
        rcases List.mem_cons.mp h with h | h
        · exact .inl (by rw [h]; exact List.mem_cons_self)
        · exact (ih h).imp_left (List.mem_cons_of_mem _)
    | put ps ih =>
        rw [replaceAll_append hpattern] at h
        rcases List.mem_cons.mp h with h | h
        · cases h
          exact .inr ⟨rfl, rfl⟩
        · exact (ih h).imp_left (List.mem_append_right _)
    | keep c ps hc ih =>
        rw [replaceAll_char hc] at h
        rcases List.mem_cons.mp h with h | h
        · cases h
        · exact (ih h).imp_left (List.mem_cons_of_mem _)

/-- The placeholders start with a small v, and from nowhere in a placeholder the pattern is found. -/
def IsApart (pattern : Text) : List Part → Prop
  | [] => True
  | char _ :: ps => IsApart pattern ps
  | token _ p :: ps =>
      p.head? = some 'v' ∧ (∀ s, s <:+ p → s ≠ [] → ¬ pattern <+: s ++ written ps) ∧
        IsApart pattern ps

/-- What holds of all parts holds of the later ones. -/
theorem isApart_append {ps qs : List Part} (h : IsApart pattern (ps ++ qs)) : IsApart pattern qs := by
  induction ps with
  | nil => exact h
  | cons p ps ih =>
      cases p with
      | char c => exact ih h
      | token k p => exact ih h.2.2

/-- What has no small v does not reach into a token. -/
theorem prefix_written_iff (hv : 'v' ∉ pattern) {ps : List Part}
    (hps : ∀ k p, token k p ∈ ps → p.head? = some 'v') :
    pattern <+: written ps ↔ pattern <+: stretch ps := by
  induction ps generalizing pattern with
  | nil => rfl
  | cons q ps ih =>
      cases q with
      | char c =>
          cases pattern with
          | nil => simp
          | cons d u =>
              rw [List.mem_cons, not_or] at hv
              rw [written, stretch, List.cons_prefix_cons, List.cons_prefix_cons,
                ih hv.2 (fun k p h => hps k p (List.mem_cons_of_mem _ h))]
      | token k p =>
          cases pattern with
          | nil => simp
          | cons d u =>
              have hhead := hps k p List.mem_cons_self
              cases p with
              | nil => cases hhead
              | cons e p =>
                  obtain rfl : e = 'v' := Option.some.inj hhead
                  have hne : d ≠ 'v' := fun h => hv (h ▸ List.mem_cons_self)
                  simp [written, stretch, List.cons_prefix_cons, hne]

/-- All tokens start with a small v. -/
theorem head?_of_isApart {ps : List Part} (h : IsApart pattern ps) :
    ∀ k p, token k p ∈ ps → p.head? = some 'v' := by
  induction ps with
  | nil =>
      intro k p hmem
      cases hmem
  | cons q ps ih =>
      intro k p hmem
      cases q with
      | char c =>
          rcases List.mem_cons.mp hmem with hmem | hmem
          · cases hmem
          · exact ih h k p hmem
      | token k' p' =>
          rcases List.mem_cons.mp hmem with hmem | hmem
          · cases hmem
            exact h.1
          · exact ih h.2.2 k p hmem

/-- **Replacing in the plain text is replacing between tokens**, where the pattern keeps apart from them. -/
theorem written_replaceAll (hpattern : pattern ≠ []) (hv : 'v' ∉ pattern) {ps : List Part}
    (h : IsApart pattern ps) :
    written (replaceAll pattern replacement ps) = Text.replaceAll pattern replacement (written ps) := by
  induction ps using induction_on_occurrences hpattern with
  | nil => rw [replaceAll_nil, written, Text.replaceAll_empty]
  | token k p ps ih =>
      rw [replaceAll_token, written, ih h.2.2, written, Text.replaceAll_append_of_not_prefix h.2.1]
  | put ps ih =>
      rw [replaceAll_append hpattern, written, ih (isApart_append h), written_append, written_map_char,
        Text.replaceAll_append hpattern]
  | keep c ps hc ih =>
      rw [← prefix_written_iff hv (head?_of_isApart h), written] at hc
      rw [written, Text.replaceAll_cons hc, ← ih h, replaceAll_char, written]
      rwa [← prefix_written_iff hv (head?_of_isApart h), written]

end Part

namespace Substitution

variable {α : Type}

/-- The text in capitals with tokens in place of the names, which no later name sees. -/
def substituteParts (bs : List (Binding α)) (text : Text) : List Part :=
  bs.foldl (fun ps b => Part.replaceAll b.name.uppercase b.placeholder ps) (text.uppercase.map Part.char)

/-- An end of the placeholder of `b` and what follows the name of `b` in the text make up the name of
`b'`. -/
def Crosses (text : Text) (b b' : Binding α) : Prop :=
  ∃ s t, s ≠ [] ∧ s <:+ b.placeholder ∧ b'.name.uppercase = s ++ t ∧
    b.name.uppercase ++ t <:+: text.uppercase

/-- Where nothing crosses, the later name keeps apart from the tokens of the earlier ones. -/
theorem isApart_of_not_crosses {vars : Dict α} {text : Text} {b' : Binding α}
    (hb' : b' ∈ bindings vars) {bs : List (Binding α)}
    (hbs : ∀ b ∈ bs, b ∈ bindings vars ∧ ¬ Crosses text b b') {before ps : List Part}
    (horigin : Part.origin (before ++ ps) = text.uppercase)
    (htokens : ∀ k p, .token k p ∈ ps → ∃ b ∈ bs, k = b.name.uppercase ∧ p = b.placeholder) :
    Part.IsApart b'.name.uppercase ps := by
  have hv : 'v' ∉ b'.name.uppercase := v_not_mem_uppercase _
  induction ps generalizing before with
  | nil => trivial
  | cons q ps ih =>
      have hrest : Part.IsApart b'.name.uppercase ps := by
        have hsplit : before ++ q :: ps = (before ++ [q]) ++ ps := by simp
        rw [hsplit] at horigin
        exact ih horigin (fun k p hmem => htokens k p (List.mem_cons_of_mem _ hmem))
      cases q with
      | char c => exact hrest
      | token k p =>
          obtain ⟨b, hb, rfl, rfl⟩ := htokens k p List.mem_cons_self
          obtain ⟨hmem, hcrosses⟩ := hbs b hb
          obtain ⟨-, -, index, hindex⟩ := of_mem_bindings hmem
          refine ⟨by rw [hindex]; rfl, ?_, hrest⟩
          intro u hu hne hprefix
          rcases List.prefix_or_prefix_of_prefix hprefix (List.prefix_append u _) with hin | ⟨t, ht⟩
          · rw [hindex] at hu
            exact not_occurs_placeholder (of_mem_bindings hb').2.1 index (hin.isInfix.trans hu.isInfix)
          · apply hcrosses
            refine ⟨u, t, hne, hu, ht.symm, ?_⟩
            have hbehind : t <+: Part.written ps := by
              rw [← ht] at hprefix
              exact (List.prefix_append_right_inj u).mp hprefix
            have hvt : 'v' ∉ t := by
              intro hmem
              apply hv
              rw [← ht]
              exact List.mem_append_right _ hmem
            have hstretch := (Part.prefix_written_iff hvt (Part.head?_of_isApart hrest)).mp hbehind
            obtain ⟨w, hw⟩ := hstretch.trans (Part.stretch_prefix_origin ps)
            rw [← horigin, Part.origin_append, Part.origin, ← hw]
            exact ⟨Part.origin before, w, by simp⟩

/-- The parts spell the text in capitals, and their tokens are placeholders of the names replaced so far. -/
structure Tokenized (text : Text) (done : List (Binding α)) (ps : List Part) : Prop where
  origin : Part.origin ps = text.uppercase
  tokens : ∀ k p, .token k p ∈ ps → ∃ b ∈ done, k = b.name.uppercase ∧ p = b.placeholder

/-- At first all parts are characters. -/
theorem Tokenized.start (text : Text) :
    Tokenized text ([] : List (Binding α)) (text.uppercase.map Part.char) where
  origin := Part.origin_map_char _
  tokens := by simp

/-- Replacing one more name keeps the text that the parts stand for. -/
theorem Tokenized.replaceAll {text : Text} {done : List (Binding α)} {ps : List Part}
    (h : Tokenized text done ps) (b : Binding α) :
    Tokenized text (done ++ [b]) (Part.replaceAll b.name.uppercase b.placeholder ps) where
  origin := (Part.origin_replaceAll ps).trans h.origin
  tokens := by
    intro k p hmem
    rcases Part.of_token_mem_replaceAll hmem with hmem | ⟨rfl, rfl⟩
    · obtain ⟨b', hb', heq⟩ := h.tokens k p hmem
      exact ⟨b', List.mem_append_left _ hb', heq⟩
    · exact ⟨b, List.mem_append_right _ List.mem_cons_self, rfl, rfl⟩

/-- Replacing one more name that crosses none of those replaced so far is replacing it between tokens. -/
theorem Tokenized.written_replaceAll {vars : Dict α} {text : Text} {done : List (Binding α)}
    {ps : List Part} (h : Tokenized text done ps) {b' : Binding α} (hb' : b' ∈ bindings vars)
    (hdone : ∀ b ∈ done, b ∈ bindings vars ∧ ¬ Crosses text b b') :
    Part.written (Part.replaceAll b'.name.uppercase b'.placeholder ps) =
      Text.replaceAll b'.name.uppercase b'.placeholder (Part.written ps) := by
  have hne : b'.name.uppercase ≠ [] := by
    obtain ⟨c, hc, -⟩ := exists_not_isDigit (of_mem_bindings hb').2.1
    exact List.ne_nil_of_mem hc
  have horigin : Part.origin ([] ++ ps) = text.uppercase := h.origin
  exact Part.written_replaceAll hne (v_not_mem_uppercase _)
    (isApart_of_not_crosses hb' hdone horigin h.tokens)

/-- **Placeholders are tokens where no names cross.**  If no end of a placeholder makes up a later name
together with what follows the earlier name in the text, then substituting in the plain text is
substituting between tokens. -/
theorem substitute_eq_written {vars : Dict α} {text : Text}
    (hcrosses : (bindings vars).Pairwise (fun b b' => ¬ Crosses text b b')) :
    substitute (bindings vars) text = Part.written (substituteParts (bindings vars) text) := by
  have hfold : ∀ (done rest : List (Binding α)) (ps : List Part), bindings vars = done ++ rest →
      Tokenized text done ps →
      rest.foldl (fun t b => Text.replaceAll b.name.uppercase b.placeholder t) (Part.written ps) =
        Part.written (rest.foldl (fun ps b => Part.replaceAll b.name.uppercase b.placeholder ps) ps) := by
    intro done rest
    induction rest generalizing done with
    | nil => exact fun ps hsplit hps => rfl
    | cons b' rest ih =>
        intro ps hsplit hps
        have hb' : b' ∈ bindings vars := hsplit ▸ List.mem_append_cons_self
        have hdone : ∀ b ∈ done, b ∈ bindings vars ∧ ¬ Crosses text b b' := by
          intro b hb
          rw [hsplit, List.pairwise_append] at hcrosses
          rw [hsplit]
          exact ⟨List.mem_append_left _ hb, hcrosses.2.2 b hb b' List.mem_cons_self⟩
        have hsplit' : bindings vars = done ++ [b'] ++ rest := by
          rw [hsplit, List.append_assoc]
          rfl
        rw [List.foldl_cons, List.foldl_cons, ← hps.written_replaceAll hb' hdone]
        exact ih (done ++ [b']) _ hsplit' (hps.replaceAll b')
  have hstart := hfold [] (bindings vars) _ rfl (.start text)
  rwa [Part.written_map_char] at hstart

/-- Two names of which the second starts with the digit of the placeholder of the first. -/
def crossingNames (x y : Float) : Dict Float := Dict.ofList [("xyz".toList, x), ("1a".toList, y)]

/-- The longer name comes first. -/
theorem bindings_crossingNames (x y : Float) :
    bindings (crossingNames x y) =
      [⟨"xyz".toList, placeholder 0, x⟩, ⟨"1a".toList, placeholder 1, y⟩] := by
  apply bindings_eq_of_perm (.refl _)
  show List.Pairwise _ ["xyz".toList, "1a".toList]
  decide

/-- Between the two names stands a plus, so no later name is found across a placeholder. -/
theorem substitute_eq_written_crossingNames :
    (bindings (crossingNames 1.0 2.0)).Pairwise (fun b b' => ¬ Crosses "xyz + 1a".toList b b') ∧
      substitute (bindings (crossingNames 1.0 2.0)) "xyz + 1a".toList =
        Part.written (substituteParts (bindings (crossingNames 1.0 2.0)) "xyz + 1a".toList) := by
  have hpairwise : (bindings (crossingNames 1.0 2.0)).Pairwise
      (fun b b' => ¬ Crosses "xyz + 1a".toList b b') := by
    rw [bindings_crossingNames, List.pairwise_pair]
    rintro ⟨s, t, hne, hsuffix, hname, hoccurs⟩
    have hcapitals : uppercase "1a".toList = ['1', 'A'] := by decide
    rw [hcapitals, List.cons_eq_append_iff] at hname
    rcases hname with ⟨rfl, -⟩ | ⟨u, rfl, hrest⟩
    · exact hne rfl
    · rw [List.singleton_eq_append_iff] at hrest
      rcases hrest with ⟨rfl, rfl⟩ | ⟨rfl, rfl⟩
      · rw [← occursIn_iff] at hoccurs
        revert hoccurs
        decide
      · revert hsuffix
        decide
  exact ⟨hpairwise, substitute_eq_written hpairwise⟩

/-- **A later name can match across a placeholder.**  `XYZA` becomes `v1A`, in which `1A` is found across
the digit of the placeholder and the letter behind it. -/
theorem substitute_ne_written :
    substitute (bindings (crossingNames 1.0 2.0)) "xyza".toList = "vv2".toList ∧
      Part.written (substituteParts (bindings (crossingNames 1.0 2.0)) "xyza".toList) = "v1A".toList ∧
      substitute (bindings (crossingNames 1.0 2.0)) "xyza".toList ≠
        Part.written (substituteParts (bindings (crossingNames 1.0 2.0)) "xyza".toList) := by
  have hplain : substitute (bindings (crossingNames 1.0 2.0)) "xyza".toList = "vv2".toList := by
    rw [bindings_crossingNames]
    decide
  have htokens : Part.written (substituteParts (bindings (crossingNames 1.0 2.0)) "xyza".toList) =
      "v1A".toList := by
    rw [bindings_crossingNames]
    decide
  refine ⟨hplain, htokens, ?_⟩
  rw [hplain, htokens]
  decide

end Substitution

end InfixFormula

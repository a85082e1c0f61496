import InfixFormula.Proofs.Partners

/-!
# The table of partners

The reading that pairs brackets goes over a text that may have stray ones: a closing bracket that finds
nothing waiting is skipped, and an opening bracket may wait for ever.  Its table nevertheless has exactly
the partners of the text (`lookup_pairs_eq_some_iff`), and each opening bracket has one entry in it
(`nodup_keys_pairs`).

What the table looks like then follows from what partners are, without another look at the reading.  A
bracket between two partners has its own partner between them (`ArePartners.exists_between`), so two pairs
are nested or disjoint (`ArePartners.nested`) and no closing bracket belongs to two opening ones
(`ArePartners.left_unique`).  And the partners in a stretch of the text are partners in the whole
(`arePartners_slice_iff`), which is why the table of a whole text serves for the inside of each of its
bracket pairs (`ArePartners.lookup_inside`).
-/

namespace InfixFormula

/-- A stretch of a stretch is a stretch of the whole. -/
theorem Text.slice_slice (t : Text) {s s' : Span} (h : s.start + s'.stop ≤ s.stop) :
    (t.slice s).slice s' = t.slice ⟨s.start + s'.start, s.start + s'.stop⟩ := by
  have hlength : min (s'.stop - s'.start) (s.stop - s.start - s'.start) =
      s.start + s'.stop - (s.start + s'.start) := by
    omega
  simp only [Text.slice, List.drop_take, List.drop_drop, List.take_take, hlength]

/-- The characters of a slice are those behind its start. -/
theorem Text.getElem?_slice (t : Text) (s : Span) {p : Nat} (hp : s.start + p < s.stop) :
    (t.slice s)[p]? = t[s.start + p]? := by
  have hlt : p < s.stop - s.start := by omega
  rw [Text.slice, List.getElem?_take, if_pos hlt, List.getElem?_drop]

namespace Bracket

section Table

/-- Every key of the table was waiting or is the position of an opening bracket. -/
theorem opening_of_mem_pairsFrom {pos i j : Nat} {waiting : List Nat} {t : Text}
    (h : (i, j) ∈ pairsFrom pos waiting t) :
    i ∈ waiting ∨ ∃ m, i = pos + m ∧ t[m]? = some '(' := by
  induction t generalizing pos waiting with
  | nil => cases h
  | cons c t ih =>
      have hahead : (∃ m, i = pos + 1 + m ∧ t[m]? = some '(') →
          ∃ m, i = pos + m ∧ (c :: t)[m]? = some '(' := by
        rintro ⟨m, rfl, hm⟩
        exact ⟨m + 1, by omega, by simpa using hm⟩
      rcases eq_opening_or_closing_or_other c with rfl | rfl | hc
      · rw [pairsFrom_opening] at h
        rcases ih h with hwaiting | hm
        · rcases List.mem_cons.mp hwaiting with rfl | hwaiting
          · exact .inr ⟨0, rfl, rfl⟩
          · exact .inl hwaiting
        · exact .inr (hahead hm)
      · cases waiting with
        | nil =>
            rw [pairsFrom_closing_nil] at h
            exact (ih h).imp id hahead
        | cons latest earlier =>
            rw [pairsFrom_closing_cons] at h
            rcases List.mem_cons.mp h with heq | h
            · cases heq
              exact .inl List.mem_cons_self
            · exact (ih h).imp (List.mem_cons_of_mem _) hahead
      · rw [pairsFrom_other _ _ _ hc] at h
        exact (ih h).imp id hahead

/-- Every pair of the table starts with an opening bracket. -/
theorem opening_of_mem_pairs {i j : Nat} {t : Text} (h : (i, j) ∈ pairs t) : t[i]? = some '(' := by
  rcases opening_of_mem_pairsFrom h with hwaiting | ⟨m, rfl, hm⟩
  · cases hwaiting
  · rwa [Nat.zero_add]

/-- A bracket that waits is taken once at most. -/
theorem nodup_keys_pairsFrom {pos : Nat} {waiting : List Nat} (t : Text) (hnodup : waiting.Nodup)
    (hlt : ∀ i ∈ waiting, i < pos) : ((pairsFrom pos waiting t).map Prod.fst).Nodup := by
  induction t generalizing pos waiting with
  | nil => exact List.nodup_nil
  | cons c t ih =>
      have hlater : ∀ i ∈ waiting, i < pos + 1 := fun i hi => Nat.lt_succ_of_lt (hlt i hi)
      rcases eq_opening_or_closing_or_other c with rfl | rfl | hc
      · rw [pairsFrom_opening]
        refine ih (List.nodup_cons.mpr ⟨?_, hnodup⟩) ?_
        · intro hmem
          exact Nat.lt_irrefl pos (hlt pos hmem)
        · exact List.forall_mem_cons.mpr ⟨Nat.lt_succ_self pos, hlater⟩
      · cases waiting with
        | nil => exact ih hnodup hlater
        | cons latest earlier =>
            obtain ⟨hlatest, hnodup⟩ := List.nodup_cons.mp hnodup
            obtain ⟨hbelow, hearlier⟩ := List.forall_mem_cons.mp hlater
            rw [pairsFrom_closing_cons, List.map_cons]
            refine List.nodup_cons.mpr ⟨?_, ih hnodup hearlier⟩
            intro hmem
            obtain ⟨⟨i, j⟩, hpair, hfst⟩ := List.mem_map.mp hmem
            obtain rfl : i = latest := hfst
            rcases opening_of_mem_pairsFrom hpair with hwaiting | ⟨m, hm, -⟩
            · exact hlatest hwaiting
            · omega
      · rw [pairsFrom_other _ _ _ hc]
        exact ih hnodup hlater

/-- Each opening bracket has one entry at most. -/
theorem nodup_keys_pairs (t : Text) : ((pairs t).map Prod.fst).Nodup :=
  nodup_keys_pairsFrom t List.nodup_nil (by simp)

/-- **The table has the partners.**  An opening bracket is looked up to be paired with a position exactly
if its partner stands there. -/
theorem lookup_pairs_eq_some_iff {t : Text} {i j : Nat} :
    (pairs t).lookup i = some j ↔ ArePartners t i j := by
  constructor
  · intro h
    obtain ⟨before, after, hsplit, -⟩ := List.lookup_eq_some_iff.mp h
    have hmem : (i, j) ∈ pairs t := by
      rw [hsplit]
      simp
    obtain ⟨front, rest, rfl, rfl⟩ := Text.exists_cut_of_getElem? (opening_of_mem_pairs hmem)
    rw [lookup_pairs List.drop_left] at h
    obtain ⟨k, hk, rfl⟩ := Option.map_eq_some_iff.mp h
    obtain ⟨inside, behind, rfl, hinside, rfl⟩ := exists_cut_of_closingOffset? hk
    exact arePartners_of_isBalanced hinside
  · intro h
    obtain ⟨before, inside, after, rfl, hinside, rfl, rfl⟩ := h.exists_cut
    rw [lookup_pairs List.drop_left, closingOffset?_balanced hinside]
    rfl

end Table

/-- The partners in a stretch of the text are the partners of the text that stand in it. -/
theorem arePartners_slice_iff {t : Text} {s : Span} {p q : Nat} :
    ArePartners (t.slice s) p q ↔
      s.start + q < s.stop ∧ ArePartners t (s.start + p) (s.start + q) := by
  have hslice : ∀ {m n}, s.start + n < s.stop →
      (t.slice s).slice ⟨m + 1, n⟩ = t.slice ⟨s.start + m + 1, s.start + n⟩ :=
    fun hn => t.slice_slice (Nat.le_of_lt hn)
  constructor
  · rintro ⟨hopening, hclosing, hlt, hbetween⟩
    have hq : s.start + q < s.stop := by
      obtain ⟨hq, -⟩ := List.getElem?_eq_some_iff.mp hclosing
      have hlength := t.length_slice_le s
      omega
    rw [t.getElem?_slice s (by omega)] at hopening
    rw [t.getElem?_slice s hq] at hclosing
    rw [hslice hq] at hbetween
    exact ⟨hq, hopening, hclosing, by omega, hbetween⟩
  · rintro ⟨hq, hopening, hclosing, hlt, hbetween⟩
    rw [← t.getElem?_slice s (by omega)] at hopening
    rw [← t.getElem?_slice s hq] at hclosing
    rw [← hslice hq] at hbetween
    exact ⟨hopening, hclosing, by omega, hbetween⟩

namespace ArePartners

variable {t : Text} {i j i' j' : Nat}

/-- An opening bracket has one partner at most. -/
theorem right_unique (h : ArePartners t i j) (h' : ArePartners t i j') : j = j' := by
  rw [← lookup_pairs_eq_some_iff] at h h'
  exact Option.some.inj (h.symm.trans h')

/-- A bracket between two partners has its partner between them. -/
theorem exists_between (h : ArePartners t i j) {p : Nat} (hi : i < p) (hj : p < j) {c : Char}
    (hc : t[p]? = some c) (hbracket : isBracket c = true) :
    ∃ q, i < q ∧ q < j ∧ (ArePartners t p q ∨ ArePartners t q p) := by
  obtain ⟨m, rfl⟩ : ∃ m, p = i + 1 + m := ⟨p - (i + 1), by omega⟩
  have hm : (t.slice ⟨i + 1, j⟩)[m]? = some c := by
    rw [t.getElem?_slice ⟨i + 1, j⟩ hj]
    exact hc
  obtain ⟨hlt, -⟩ := List.getElem?_eq_some_iff.mp hm
  have hpartner : HasPartner (t.slice ⟨i + 1, j⟩) m := by
    have hwhole := hasPartner_of_isBalanced h.between [] hlt (by simpa using hm) hbracket
    rwa [List.append_nil] at hwhole
  obtain ⟨q, hq | hq⟩ := hpartner
  · obtain ⟨hq, hpartners⟩ := arePartners_slice_iff.mp hq
    exact ⟨i + 1 + q, by omega, hq, .inl hpartners⟩
  · have hlt := hq.lt
    obtain ⟨-, hpartners⟩ := arePartners_slice_iff.mp hq
    exact ⟨i + 1 + q, by omega, by omega, .inr hpartners⟩

/-- Two pairs are disjoint, or the one that opens later closes earlier. -/
theorem nested (h : ArePartners t i j) (h' : ArePartners t i' j') (hlt : i < i') :
    j < i' ∨ j' < j := by
  by_cases hj : j < i'
  · exact .inl hj
  · right
    have hne : i' ≠ j := by
      rintro rfl
      have hchars := h'.opening.symm.trans h.closing
      cases hchars
    obtain ⟨q, -, hq, hpartners | hpartners⟩ :=
      h.exists_between hlt (by omega) h'.opening rfl
    · rwa [h'.right_unique hpartners]
    · have hchars := h'.opening.symm.trans hpartners.closing
      cases hchars

/-- Two opening brackets never share a partner. -/
theorem left_unique (h : ArePartners t i j) (h' : ArePartners t i' j) : i = i' := by
  rcases Nat.lt_trichotomy i i' with hlt | heq | hlt
  · have hopens := h'.lt
    have hapart := h.nested h' hlt
    omega
  · exact heq
  · have hopens := h.lt
    have hapart := h'.nested h hlt
    omega

/-- The table of a whole text serves for what stands between two partners. -/
theorem lookup_inside (h : ArePartners t i j) {p : Nat} (hp : i + 1 + p < j) :
    (pairs t).lookup (i + 1 + p) =
      ((pairs (t.slice ⟨i + 1, j⟩)).lookup p).map (i + 1 + ·) := by
  ext q
  rw [Option.map_eq_some_iff, lookup_pairs_eq_some_iff]
  constructor
  · intro hpartners
    have hlt := hpartners.lt
    have hq : q < j := by
      have hnested := h.nested hpartners (by omega)
      omega
    obtain ⟨m, rfl⟩ : ∃ m, q = i + 1 + m := ⟨q - (i + 1), by omega⟩
    exact ⟨m, lookup_pairs_eq_some_iff.mpr (arePartners_slice_iff.mpr ⟨hq, hpartners⟩), rfl⟩
  · rintro ⟨m, hm, rfl⟩
    exact (arePartners_slice_iff.mp (lookup_pairs_eq_some_iff.mp hm)).2

end ArePartners

/-- **Partners in any text.**  Whatever the brackets of a text, the table that the reading makes pairs two
positions exactly if they hold an opening and a closing bracket with a balanced stretch between them.  No
position is paired twice, two pairs are nested or disjoint, a bracket inside a pair has its partner inside
it, and the table of the inside alone has the same pairs. -/
theorem pairs_arePartners (t : Text) :
    (∀ i j, (pairs t).lookup i = some j ↔
      t[i]? = some '(' ∧ t[j]? = some ')' ∧ i < j ∧ isBalanced 0 (t.slice ⟨i + 1, j⟩) = true) ∧
    ((pairs t).map Prod.fst).Nodup ∧
    (∀ i i' j, (pairs t).lookup i = some j → (pairs t).lookup i' = some j → i = i') ∧
    (∀ i j i' j', (pairs t).lookup i = some j → (pairs t).lookup i' = some j' → i < i' →
      j < i' ∨ j' < j) ∧
    (∀ i j, (pairs t).lookup i = some j → ∀ p, i < p → p < j → ∀ c ∈ t[p]?, isBracket c = true →
      ∃ q, i < q ∧ q < j ∧ ((pairs t).lookup p = some q ∨ (pairs t).lookup q = some p)) ∧
    (∀ i j, (pairs t).lookup i = some j → ∀ p, i + 1 + p < j →
      (pairs t).lookup (i + 1 + p) =
        ((pairs (t.slice ⟨i + 1, j⟩)).lookup p).map (i + 1 + ·)) := by
  simp only [lookup_pairs_eq_some_iff]
  refine ⟨?_, nodup_keys_pairs t, ?_, ?_, ?_, ?_⟩
  · intro i j
    exact ⟨fun h => ⟨h.opening, h.closing, h.lt, h.between⟩,
      fun ⟨hopening, hclosing, hlt, hbetween⟩ => ⟨hopening, hclosing, hlt, hbetween⟩⟩
  · intro i i' j h h'
    exact h.left_unique h'
  · intro i j i' j' h h' hlt
    exact h.nested h' hlt
  · intro i j h p hi hj c hc hbracket
    exact h.exists_between hi hj hc hbracket
  · intro i j h p hp
    exact h.lookup_inside hp

end Bracket

end InfixFormula

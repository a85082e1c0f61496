import InfixFormula.Proofs.Brackets

/-!
# Brackets with a partner and without

Two brackets are partners if the one opens, the other closes and what stands between them is balanced.
This says nothing about a reading of the text.

`depthBehind?` counts how many brackets are open behind a stretch, so a stretch is balanced if it starts
and ends at depth zero.  Every bracket of a balanced stretch has its partner in it
(`hasPartner_of_isBalanced`).  Behind a balanced stretch, a closing bracket has no partner
(`isFirstUnmatched_closing`), and an opening bracket has none if counting from there finds none
(`isFirstUnmatched_opening`).
-/

namespace InfixFormula

/-- A text can be cut at each of its characters. -/
theorem Text.exists_cut_of_getElem? {t : Text} {p : Nat} {c : Char} (h : t[p]? = some c) :
    ∃ before after, t = before ++ c :: after ∧ before.length = p := by
  obtain ⟨hp, hc⟩ := List.getElem?_eq_some_iff.mp h
  refine ⟨t.take p, t.drop (p + 1), ?_, ?_⟩
  · rw [← hc, ← List.drop_eq_getElem_cons hp, List.take_append_drop]
  · rw [List.length_take, Nat.min_eq_left (Nat.le_of_lt hp)]

namespace Bracket

/-- The brackets at the two positions are partners. -/
structure ArePartners (t : Text) (i j : Nat) : Prop where
  opening : t[i]? = some '('
  closing : t[j]? = some ')'
  lt : i < j
  between : isBalanced 0 (t.slice ⟨i + 1, j⟩) = true

/-- The bracket at the position has a partner. -/
def HasPartner (t : Text) (p : Nat) : Prop := ∃ q, ArePartners t p q ∨ ArePartners t q p

/-- The bracket at the position has no partner, and all brackets before it have one. -/
structure IsFirstUnmatched (t : Text) (p : Nat) : Prop where
  unmatched : ¬ HasPartner t p
  before : ∀ q < p, ∀ c ∈ t[q]?, isBracket c = true → HasPartner t q

/-- How many brackets are open behind the text, where `d` are open in front of it.  There is no answer if
it closes a bracket that was never opened. -/
def depthBehind? (d : Nat) : Text → Option Nat
  | [] => some d
  | c :: t =>
      if c = '(' then depthBehind? (d + 1) t
      else if c = ')' then
        match d with
        | 0 => none
        | d + 1 => depthBehind? d t
      else depthBehind? d t

section Equations

variable (d : Nat) (t : Text)

theorem depthBehind?_opening : depthBehind? d ('(' :: t) = depthBehind? (d + 1) t := rfl

theorem depthBehind?_closing_zero : depthBehind? 0 (')' :: t) = none := rfl

theorem depthBehind?_closing_succ : depthBehind? (d + 1) (')' :: t) = depthBehind? d t := rfl

/-- Only brackets change the depth. -/
theorem depthBehind?_other {c : Char} (hc : isBracket c = false) :
    depthBehind? d (c :: t) = depthBehind? d t := by
  simp only [isBracket, Bool.or_eq_false_iff, beq_eq_false_iff_ne] at hc
  simp [depthBehind?, hc.1, hc.2]

end Equations

/-- A text is balanced if it closes everything that is open. -/
theorem isBalanced_iff_depthBehind? (d : Nat) (t : Text) :
    isBalanced d t = true ↔ depthBehind? d t = some 0 := by
  induction t generalizing d with
  | nil => simp [depthBehind?]
  | cons c t ih =>
      rcases eq_opening_or_closing_or_other c with rfl | rfl | hc
      · rw [isBalanced_opening, depthBehind?_opening, ih]
      · cases d with
        | zero => simp [depthBehind?_closing_zero]
        | succ d => rw [isBalanced_closing_succ, depthBehind?_closing_succ, ih]
      · rw [isBalanced_other _ _ hc, depthBehind?_other _ _ hc, ih]

/-- The depth behind two texts is reached by way of that behind the first. -/
theorem depthBehind?_append (d : Nat) (t u : Text) :
    depthBehind? d (t ++ u) = (depthBehind? d t).bind (fun n => depthBehind? n u) := by
  induction t generalizing d with
  | nil => rfl
  | cons c t ih =>
      rw [List.cons_append]
      rcases eq_opening_or_closing_or_other c with rfl | rfl | hc
      · rw [depthBehind?_opening, depthBehind?_opening, ih]
      · cases d with
        | zero => rfl
        | succ d => rw [depthBehind?_closing_succ, depthBehind?_closing_succ, ih]
      · rw [depthBehind?_other _ _ hc, depthBehind?_other _ _ hc, ih]

/-- A balanced text is balanced behind each cut, with the brackets that are open there. -/
theorem isBalanced_append_iff {d : Nat} {t u : Text} :
    isBalanced d (t ++ u) = true ↔ ∃ n, depthBehind? d t = some n ∧ isBalanced n u = true := by
  simp only [isBalanced_iff_depthBehind?, depthBehind?_append, Option.bind_eq_some_iff]

/-- A balanced stretch leaves the depth as it is. -/
theorem depthBehind?_balanced {t : Text} (h : isBalanced 0 t = true) (d : Nat) (u : Text) :
    depthBehind? d (t ++ u) = depthBehind? d u := by
  have hlift : ∀ (m : Nat) (t : Text) (d : Nat), depthBehind? m t = some 0 →
      depthBehind? (m + d) t = some d := by
    intro m t d hm
    induction t generalizing m with
    | nil =>
        cases hm
        simp [depthBehind?]
    | cons c t ih =>
        rcases eq_opening_or_closing_or_other c with rfl | rfl | hc
        · rw [depthBehind?_opening, Nat.add_right_comm]
          exact ih (m + 1) hm
        · cases m with
          | zero => cases hm
          | succ m =>
              rw [Nat.add_right_comm, depthBehind?_closing_succ]
              exact ih m hm
        · rw [depthBehind?_other _ _ hc] at hm ⊢
          exact ih m hm
  have hbehind := hlift 0 t d ((isBalanced_iff_depthBehind? 0 t).mp h)
  rw [Nat.zero_add] at hbehind
  rw [depthBehind?_append, hbehind]
  rfl

/-- A balanced text leaves every depth as it is. -/
theorem depthBehind?_eq_some {t : Text} (h : isBalanced 0 t = true) (d : Nat) :
    depthBehind? d t = some d := by
  have hbehind := depthBehind?_balanced h d []
  rwa [List.append_nil] at hbehind

/-- Where brackets are left open, the last one of them stands in front of a balanced stretch. -/
theorem exists_opening_of_depthBehind? {n : Nat} {t : Text} (h : depthBehind? 0 t = some (n + 1)) :
    ∃ u v, t = u ++ '(' :: v ∧ isBalanced 0 v = true ∧ depthBehind? 0 u = some n := by
  rcases List.eq_nil_or_concat t with rfl | ⟨t', c, rfl⟩
  · cases h
  · rw [List.concat_eq_append] at h ⊢
    obtain ⟨m, hm, hlast⟩ := Option.bind_eq_some_iff.mp ((depthBehind?_append 0 t' [c]).symm.trans h)
    rcases eq_opening_or_closing_or_other c with rfl | rfl | hc
    · obtain rfl : m = n := by simpa [depthBehind?] using hlast
      exact ⟨t', [], rfl, rfl, hm⟩
    · -- The bracket that closes here was opened after the one that is left open.
      cases m with
      | zero => cases hlast
      | succ m =>
          obtain rfl : m = n + 1 := by simpa [depthBehind?] using hlast
          obtain ⟨u, v, rfl, hv, hu⟩ := exists_opening_of_depthBehind? hm
          obtain ⟨u', v', rfl, hv', hu'⟩ := exists_opening_of_depthBehind? hu
          refine ⟨u', v' ++ '(' :: (v ++ [')']), by simp, ?_, hu'⟩
          rw [isBalanced_balanced_append hv', isBalanced_opening]
          simpa using isBalanced_append hv 1 [')']
    · rw [depthBehind?_other _ _ hc] at hlast
      obtain rfl : m = n + 1 := Option.some.inj hlast
      obtain ⟨u, v, rfl, hv, hu⟩ := exists_opening_of_depthBehind? hm
      refine ⟨u, v ++ [c], by simp, ?_, hu⟩
      rw [isBalanced_balanced_append hv, isBalanced_other _ _ hc]
      rfl
termination_by t.length
decreasing_by
  all_goals
    subst_vars
    simp only [List.length_concat, List.length_append, List.length_cons]
    omega

/-- What closes more than `d` brackets holds the partner of a bracket with `d` others open behind it. -/
theorem exists_closingOffset?_of_lt {d m : Nat} {t : Text} (h : isBalanced m t = true) (hd : d < m) :
    ∃ k, closingOffset? d t = some k := by
  induction t generalizing d m with
  | nil =>
      obtain rfl : m = 0 := by simpa using h
      omega
  | cons c t ih =>
      rcases eq_opening_or_closing_or_other c with rfl | rfl | hc
      · obtain ⟨k, hk⟩ := ih (d := d + 1) h (by omega)
        exact ⟨k + 1, by simp [hk]⟩
      · cases d with
        | zero => exact ⟨0, rfl⟩
        | succ d =>
            cases m with
            | zero => omega
            | succ m =>
                obtain ⟨k, hk⟩ := ih h (by omega : d < m)
                exact ⟨k + 1, by simp [hk]⟩
      · rw [isBalanced_other _ _ hc] at h
        obtain ⟨k, hk⟩ := ih h hd
        exact ⟨k + 1, by simp [closingOffset?_other _ _ hc, hk]⟩

/-- What counting finds cuts the text at the partner. -/
theorem exists_cut_of_closingOffset? {k : Nat} {t : Text} (h : closingOffset? 0 t = some k) :
    ∃ inside after, t = inside ++ ')' :: after ∧ isBalanced 0 inside = true ∧ inside.length = k := by
  refine ⟨_, _, (take_append_closing_append_drop h).symm, isBalanced_take_of_closingOffset? h, ?_⟩
  rw [List.length_take, Nat.min_eq_left (Nat.le_of_lt (closingOffset?_lt h))]

section Cuts

variable {before inside after : Text}

/-- The span between the two brackets is the inside. -/
theorem slice_between : Text.slice (before ++ '(' :: (inside ++ ')' :: after))
    ⟨before.length + 1, before.length + 1 + inside.length⟩ = inside := by
  rw [Text.slice, Nat.add_sub_cancel_left, ← List.drop_drop, List.drop_left]
  exact List.take_left

/-- Where the text is cut at two brackets with a balanced stretch between them, they are partners. -/
theorem arePartners_of_isBalanced (h : isBalanced 0 inside = true) :
    ArePartners (before ++ '(' :: (inside ++ ')' :: after)) before.length
      (before.length + 1 + inside.length) where
  opening := by simp
  closing := by
    have hlength : before.length + 1 + inside.length = (before ++ '(' :: inside).length := by
      simp only [List.length_append, List.length_cons]
      omega
    have hcut : before ++ '(' :: (inside ++ ')' :: after) =
        (before ++ '(' :: inside) ++ ')' :: after := by
      simp
    rw [hlength, hcut, List.getElem?_append_right (Nat.le_refl _), Nat.sub_self]
    rfl
  lt := by omega
  between := by rwa [slice_between]

/-- Partners cut the text into what stands before, between and behind them. -/
theorem ArePartners.exists_cut {t : Text} {i j : Nat} (h : ArePartners t i j) :
    ∃ before inside after, t = before ++ '(' :: (inside ++ ')' :: after) ∧ isBalanced 0 inside = true ∧
      before.length = i ∧ i + 1 + inside.length = j := by
  obtain ⟨before, rest, rfl, rfl⟩ := Text.exists_cut_of_getElem? h.opening
  obtain ⟨m, rfl⟩ : ∃ m, j = before.length + 1 + m := ⟨j - (before.length + 1), by have := h.lt; omega⟩
  have hclosing : rest[m]? = some ')' := by
    have hclosing := h.closing
    rwa [List.append_cons, List.getElem?_append_right (by simp), List.length_append,
      List.length_singleton, Nat.add_sub_cancel_left] at hclosing
  obtain ⟨inside, after, rfl, rfl⟩ := Text.exists_cut_of_getElem? hclosing
  have hbetween := h.between
  rw [slice_between] at hbetween
  exact ⟨before, inside, after, rfl, hbetween, rfl, rfl⟩

/-- Every bracket of a balanced stretch has a partner. -/
theorem hasPartner_of_isBalanced {t : Text} (h : isBalanced 0 t = true) (after : Text) {q : Nat}
    (hq : q < t.length) {c : Char} (hc : (t ++ after)[q]? = some c) (hbracket : isBracket c = true) :
    HasPartner (t ++ after) q := by
  rw [List.getElem?_append_left hq] at hc
  obtain ⟨u, v, rfl, rfl⟩ := Text.exists_cut_of_getElem? hc
  obtain ⟨m, hu, hv⟩ := isBalanced_append_iff.mp h
  rcases eq_opening_or_closing_or_other c with rfl | rfl | hother
  · rw [isBalanced_opening] at hv
    obtain ⟨k, hk⟩ := exists_closingOffset?_of_lt hv (Nat.succ_pos m)
    obtain ⟨inside, rest, rfl, hinside, -⟩ := exists_cut_of_closingOffset? hk
    have hpartners : ArePartners (u ++ '(' :: (inside ++ ')' :: (rest ++ after))) u.length
        (u.length + 1 + inside.length) :=
      arePartners_of_isBalanced hinside
    exact ⟨_, .inl (by simpa using hpartners)⟩
  · cases m with
    | zero => cases hv
    | succ m =>
        obtain ⟨x, y, rfl, hy, -⟩ := exists_opening_of_depthBehind? hu
        have hpartners : ArePartners (x ++ '(' :: (y ++ ')' :: (v ++ after))) x.length
            (x.length + 1 + y.length) :=
          arePartners_of_isBalanced hy
        have hlength : (x ++ '(' :: y).length = x.length + 1 + y.length := by
          simp only [List.length_append, List.length_cons]
          omega
        rw [hlength]
        exact ⟨_, .inr (by simpa using hpartners)⟩
  · rw [hother] at hbracket
    cases hbracket

/-- Behind a balanced stretch, an opening bracket that counting finds no partner for has none, and is the
first such bracket. -/
theorem isFirstUnmatched_opening (hbefore : isBalanced 0 before = true)
    (h : closingOffset? 0 after = none) : IsFirstUnmatched (before ++ '(' :: after) before.length where
  unmatched := by
    rintro ⟨q, hpartners | hpartners⟩
    · obtain ⟨u, inside, v, hcut, hinside, hlength, -⟩ := hpartners.exists_cut
      obtain ⟨rfl, hrest⟩ := List.append_inj hcut hlength.symm
      rw [(List.cons.inj hrest).2, closingOffset?_balanced hinside] at h
      cases h
    · have hclosing := hpartners.closing
      simp at hclosing
  before := fun _ hq _ hc hbracket => hasPartner_of_isBalanced hbefore _ hq hc hbracket

/-- Behind a balanced stretch, a closing bracket has no partner, and is the first such bracket. -/
theorem isFirstUnmatched_closing (hbefore : isBalanced 0 before = true) :
    IsFirstUnmatched (before ++ ')' :: after) before.length where
  unmatched := by
    rintro ⟨q, hpartners | hpartners⟩
    · have hopening := hpartners.opening
      simp at hopening
    · obtain ⟨u, inside, v, hcut, hinside, rfl, hlength⟩ := hpartners.exists_cut
      have hcut' : before ++ ')' :: after = (u ++ '(' :: inside) ++ ')' :: v := by simpa using hcut
      have hlength' : before.length = (u ++ '(' :: inside).length := by
        rw [List.length_append, List.length_cons]
        omega
      obtain ⟨rfl, -⟩ := List.append_inj hcut' hlength'
      -- The opening bracket is still open behind the balanced stretch in which it stands.
      obtain ⟨m, -, hm⟩ := isBalanced_append_iff.mp hbefore
      rw [isBalanced_opening, isBalanced_iff_depthBehind?, depthBehind?_eq_some hinside] at hm
      cases hm
  before := fun _ hq _ hc hbracket => hasPartner_of_isBalanced hbefore _ hq hc hbracket

end Cuts

end Bracket

end InfixFormula

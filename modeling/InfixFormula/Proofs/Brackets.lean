import InfixFormula.Bracket
import InfixFormula.Literal

/-!
# Where a bracket finds its partner

The pairs of a whole text are found by one reading with a stack, while a stretch of the text finds the
partner of an opening bracket by counting depth.  Both see the same partner.

The stack holds the positions that wait for a closing bracket.  The one at place `n` of it is closed by
the first bracket that closes `n` further ones, which is what `closingOffset? n` counts
(`lookup_pairsFrom_waiting`); the bracket that is opened next is at place zero
(`lookup_pairs`).

Counting may start behind any balanced stretch (`isBalanced_append`, `closingOffset?_append`), and what
stands behind the partner does not matter to it (`closingOffset?_append_of_some`).
-/

namespace InfixFormula.Bracket

/-- Whether the character is a bracket. -/
def isBracket (c : Char) : Bool := c == '(' || c == ')'

/-- Whether the text has no brackets. -/
def isFlat (t : Text) : Bool := t.all (fun c => !isBracket c)

section Equations

variable (d : Nat) (t : Text)

@[simp] theorem isBalanced_nil : isBalanced d [] = (d == 0) := rfl

@[simp] theorem isBalanced_opening : isBalanced d ('(' :: t) = isBalanced (d + 1) t := rfl

@[simp] theorem isBalanced_closing_zero : isBalanced 0 (')' :: t) = false := rfl

@[simp] theorem isBalanced_closing_succ : isBalanced (d + 1) (')' :: t) = isBalanced d t := rfl

/-- Only brackets count for balance. -/
theorem isBalanced_other {c : Char} (hc : isBracket c = false) :
    isBalanced d (c :: t) = isBalanced d t := by
  simp only [isBracket, Bool.or_eq_false_iff, beq_eq_false_iff_ne] at hc
  simp [isBalanced, hc.1, hc.2]

@[simp] theorem closingOffset?_opening :
    closingOffset? d ('(' :: t) = (closingOffset? (d + 1) t).map (· + 1) := rfl

@[simp] theorem closingOffset?_closing_zero : closingOffset? 0 (')' :: t) = some 0 := rfl

@[simp] theorem closingOffset?_closing_succ :
    closingOffset? (d + 1) (')' :: t) = (closingOffset? d t).map (· + 1) := rfl

/-- Only brackets count on the way to the closing one. -/
theorem closingOffset?_other {c : Char} (hc : isBracket c = false) :
    closingOffset? d (c :: t) = (closingOffset? d t).map (· + 1) := by
  simp only [isBracket, Bool.or_eq_false_iff, beq_eq_false_iff_ne] at hc
  simp [closingOffset?, hc.1, hc.2]

end Equations

/-- A character opens, closes, or is no bracket. -/
theorem eq_opening_or_closing_or_other (c : Char) :
    c = '(' ∨ c = ')' ∨ isBracket c = false := by
  by_cases hopen : c = '('
  · exact .inl hopen
  · by_cases hclose : c = ')'
    · exact .inr (.inl hclose)
    · exact .inr (.inr (by simp [isBracket, hopen, hclose]))

/-- Brackets delimit tokens, so no character of a token is one. -/
theorem isBracket_of_isDelimiter {c : Char} (hc : Literal.isDelimiter c = false) :
    isBracket c = false := by
  simp only [Literal.isDelimiter, Bool.or_eq_false_iff] at hc
  simp [isBracket, hc]

/-- Layout holds no brackets. -/
theorem isFlat_of_isBlank {t : Text} (h : t.isBlank = true) : isFlat t = true := by
  simp only [Text.isBlank, isFlat, List.all_eq_true, Bool.not_eq_true'] at h ⊢
  intro c hc
  have hlayout := h c hc
  rcases eq_opening_or_closing_or_other c with rfl | rfl | hother
  · cases hlayout
  · cases hlayout
  · exact hother

/-- A text without brackets is balanced. -/
theorem isBalanced_of_isFlat {t : Text} (h : isFlat t = true) : isBalanced 0 t = true := by
  induction t with
  | nil => rfl
  | cons c t ih =>
      simp only [isFlat, List.all_cons, Bool.and_eq_true, Bool.not_eq_true'] at h
      rw [isBalanced_other 0 t h.1]
      exact ih h.2

theorem isBalanced_of_isBlank {t : Text} (h : t.isBlank = true) : isBalanced 0 t = true :=
  isBalanced_of_isFlat (isFlat_of_isBlank h)

/-- What closes `d` brackets leaves the others to the text behind it. -/
theorem isBalanced_append {d : Nat} {t : Text} (h : isBalanced d t = true) (m : Nat) (u : Text) :
    isBalanced (d + m) (t ++ u) = isBalanced m u := by
  induction t generalizing d with
  | nil =>
      have hd : d = 0 := by simpa using h
      simp [hd]
  | cons c t ih =>
      rcases eq_opening_or_closing_or_other c with rfl | rfl | hc
      · have hstep := ih (d := d + 1) h
        rw [List.cons_append, isBalanced_opening, Nat.add_right_comm, hstep]
      · cases d with
        | zero => simp at h
        | succ d =>
            rw [List.cons_append, Nat.add_right_comm, isBalanced_closing_succ]
            exact ih h
      · rw [isBalanced_other d t hc] at h
        rw [List.cons_append, isBalanced_other _ _ hc]
        exact ih h

/-- Balanced stretches in a row are balanced together. -/
theorem isBalanced_balanced_append {t : Text} (h : isBalanced 0 t = true) (u : Text) :
    isBalanced 0 (t ++ u) = isBalanced 0 u :=
  isBalanced_append h 0 u

/-- The search for a partner goes on behind a stretch that closes `d` of the brackets. -/
theorem closingOffset?_append {d : Nat} {t : Text} (h : isBalanced d t = true) (m : Nat) (u : Text) :
    closingOffset? (d + m) (t ++ u) = (closingOffset? m u).map (· + t.length) := by
  induction t generalizing d with
  | nil =>
      have hd : d = 0 := by simpa using h
      simp [hd]
  | cons c t ih =>
      rcases eq_opening_or_closing_or_other c with rfl | rfl | hc
      · have hstep := ih (d := d + 1) h
        rw [List.cons_append, closingOffset?_opening, Nat.add_right_comm, hstep]
        simp [Function.comp_def, Nat.add_assoc]
      · cases d with
        | zero => simp at h
        | succ d =>
            rw [List.cons_append, Nat.add_right_comm, closingOffset?_closing_succ,
              ih (d := d) h]
            simp [Function.comp_def, Nat.add_assoc]
      · rw [isBalanced_other d t hc] at h
        rw [List.cons_append, closingOffset?_other _ _ hc, ih h]
        simp [Function.comp_def, Nat.add_assoc]

/-- Text without brackets behind a stretch closes nothing. -/
theorem isBalanced_append_flat {u : Text} (hu : isFlat u = true) (d : Nat) (t : Text) :
    isBalanced d (t ++ u) = isBalanced d t := by
  induction t generalizing d with
  | nil =>
      induction u with
      | nil => rfl
      | cons c u ih =>
          simp only [isFlat, List.all_cons, Bool.and_eq_true, Bool.not_eq_true'] at hu
          rw [List.nil_append, isBalanced_other _ _ hu.1]
          exact ih hu.2
  | cons c t ih =>
      rcases eq_opening_or_closing_or_other c with rfl | rfl | hc
      · exact ih (d + 1)
      · cases d with
        | zero => rfl
        | succ d => exact ih d
      · rw [List.cons_append, isBalanced_other _ _ hc, isBalanced_other _ _ hc]
        exact ih d

/-- Trimming leaves a text as balanced as it is. -/
theorem isBalanced_trim (t : Text) : isBalanced 0 t.trim = isBalanced 0 t := by
  obtain ⟨w, hw, hsplit⟩ := t.exists_eq_margin_trim
  rw [← isBalanced_append_flat (isFlat_of_isBlank hw) 0 t.trim,
    ← isBalanced_balanced_append (isBalanced_of_isBlank t.isBlank_margin) (t.trim ++ w),
    ← List.append_assoc, ← hsplit]

/-- A balanced stretch ends where its bracket closes. -/
theorem closingOffset?_balanced {t : Text} (h : isBalanced 0 t = true) (u : Text) :
    closingOffset? 0 (t ++ ')' :: u) = some t.length := by
  simpa using closingOffset?_append h 0 (')' :: u)

/-- A partner that is found in a stretch is found whatever follows. -/
theorem closingOffset?_append_of_some {d k : Nat} {t : Text} (h : closingOffset? d t = some k)
    (u : Text) : closingOffset? d (t ++ u) = some k := by
  induction t generalizing d k with
  | nil => simp [closingOffset?] at h
  | cons c t ih =>
      rcases eq_opening_or_closing_or_other c with rfl | rfl | hc
      · obtain ⟨j, hj, rfl⟩ := Option.map_eq_some_iff.mp h
        simp [ih hj]
      · cases d with
        | zero => exact h
        | succ d =>
            obtain ⟨j, hj, rfl⟩ := Option.map_eq_some_iff.mp h
            simp [ih hj]
      · rw [closingOffset?_other d t hc] at h
        obtain ⟨j, hj, rfl⟩ := Option.map_eq_some_iff.mp h
        simp [closingOffset?_other _ _ hc, ih hj]

/-- Text without brackets has no partner to offer. -/
theorem closingOffset?_append_flat {u : Text} (hu : isFlat u = true) (d : Nat) (t : Text) :
    closingOffset? d (t ++ u) = closingOffset? d t := by
  induction t generalizing d with
  | nil =>
      induction u generalizing d with
      | nil => rfl
      | cons c u ih =>
          simp only [isFlat, List.all_cons, Bool.and_eq_true, Bool.not_eq_true'] at hu
          rw [List.nil_append, closingOffset?_other _ _ hu.1]
          exact congrArg (Option.map (· + 1)) (ih hu.2 d)
  | cons c t ih =>
      rcases eq_opening_or_closing_or_other c with rfl | rfl | hc
      · simp [ih]
      · cases d with
        | zero => rfl
        | succ d => simp [ih]
      · simp [closingOffset?_other _ _ hc, ih]

/-- What closes a bracket opened before it holds the partner of that bracket. -/
theorem exists_closingOffset?_of_isBalanced {d : Nat} {t : Text}
    (h : isBalanced (d + 1) t = true) : ∃ k, closingOffset? d t = some k := by
  induction t generalizing d with
  | nil => simp at h
  | cons c t ih =>
      rcases eq_opening_or_closing_or_other c with rfl | rfl | hc
      · obtain ⟨k, hk⟩ := ih (d := d + 1) h
        exact ⟨k + 1, by simp [hk]⟩
      · cases d with
        | zero => exact ⟨0, rfl⟩
        | succ d =>
            obtain ⟨k, hk⟩ := ih (d := d) h
            exact ⟨k + 1, by simp [hk]⟩
      · rw [isBalanced_other _ _ hc] at h
        obtain ⟨k, hk⟩ := ih h
        exact ⟨k + 1, by simp [closingOffset?_other _ _ hc, hk]⟩

/-- The partner cuts the text into what stands before and behind it. -/
theorem take_append_closing_append_drop {d k : Nat} {t : Text}
    (h : closingOffset? d t = some k) : t.take k ++ ')' :: t.drop (k + 1) = t := by
  induction t generalizing d k with
  | nil => simp [closingOffset?] at h
  | cons c t ih =>
      rcases eq_opening_or_closing_or_other c with rfl | rfl | hc
      · obtain ⟨j, hj, rfl⟩ := Option.map_eq_some_iff.mp h
        simpa using ih hj
      · cases d with
        | zero =>
            cases h
            rfl
        | succ d =>
            obtain ⟨j, hj, rfl⟩ := Option.map_eq_some_iff.mp h
            simpa using ih hj
      · rw [closingOffset?_other d t hc] at h
        obtain ⟨j, hj, rfl⟩ := Option.map_eq_some_iff.mp h
        simpa using ih hj

section Pairs

variable (pos : Nat) (waiting : List Nat) (t : Text)

/-- An opening bracket waits for its partner. -/
@[simp] theorem pairsFrom_opening :
    pairsFrom pos waiting ('(' :: t) = pairsFrom (pos + 1) (pos :: waiting) t := rfl

/-- A closing bracket that nothing waits for is skipped. -/
@[simp] theorem pairsFrom_closing_nil :
    pairsFrom pos [] (')' :: t) = pairsFrom (pos + 1) [] t := rfl

/-- A closing bracket takes the latest opening one that waits. -/
@[simp] theorem pairsFrom_closing_cons (opening : Nat) :
    pairsFrom pos (opening :: waiting) (')' :: t) =
      (opening, pos) :: pairsFrom (pos + 1) waiting t := rfl

/-- Only brackets make pairs. -/
theorem pairsFrom_other {c : Char} (hc : isBracket c = false) :
    pairsFrom pos waiting (c :: t) = pairsFrom (pos + 1) waiting t := by
  simp only [isBracket, Bool.or_eq_false_iff, beq_eq_false_iff_ne] at hc
  simp [pairsFrom, hc.1, hc.2]

end Pairs

private theorem map_add_one (o : Option Nat) (pos : Nat) :
    (o.map (· + 1)).map (pos + ·) = o.map (pos + 1 + ·) := by
  rw [Option.map_map]
  congr 1
  funext k
  simp only [Function.comp_apply]
  omega

private theorem forall_lt_add_one {waiting : List Nat} {pos : Nat} (hlt : ∀ i ∈ waiting, i < pos) :
    ∀ i ∈ waiting, i < pos + 1 :=
  fun i hi => Nat.lt_succ_of_lt (hlt i hi)

private theorem forall_lt_push {waiting : List Nat} {pos : Nat} (hlt : ∀ i ∈ waiting, i < pos) :
    ∀ i ∈ pos :: waiting, i < pos + 1 :=
  List.forall_mem_cons.mpr ⟨Nat.lt_succ_self pos, forall_lt_add_one hlt⟩

/-- Brackets that wait stand at different positions, since a new one stands behind them all. -/
private theorem nodup_push {waiting : List Nat} {pos : Nat} (hnodup : waiting.Nodup)
    (hlt : ∀ i ∈ waiting, i < pos) : (pos :: waiting).Nodup :=
  List.nodup_cons.mpr ⟨fun hmem => Nat.lt_irrefl _ (hlt pos hmem), hnodup⟩

/-- The partner of the opening bracket at place `n` of the stack closes `n` others before it. -/
theorem lookup_pairsFrom_waiting {pos n opening : Nat} {waiting : List Nat} (t : Text)
    (hnodup : waiting.Nodup) (hlt : ∀ i ∈ waiting, i < pos) (hn : waiting[n]? = some opening) :
    (pairsFrom pos waiting t).lookup opening = (closingOffset? n t).map (pos + ·) := by
  induction t generalizing pos n waiting with
  | nil => rfl
  | cons c t ih =>
      rcases eq_opening_or_closing_or_other c with rfl | rfl | hc
      · have hrest := ih (n := n + 1) (nodup_push hnodup hlt) (forall_lt_push hlt) (by simpa using hn)
        rw [pairsFrom_opening, hrest, closingOffset?_opening, map_add_one]
      · cases waiting with
        | nil => simp at hn
        | cons latest earlier =>
            obtain ⟨hlatest, hnodup⟩ := List.nodup_cons.mp hnodup
            cases n with
            | zero =>
                have heq : latest = opening := by simpa using hn
                subst heq
                simp
            | succ n =>
                have hn : earlier[n]? = some opening := by simpa using hn
                have hne : (opening == latest) = false := by
                  simp only [beq_eq_false_iff_ne]
                  rintro rfl
                  exact hlatest (List.mem_of_getElem? hn)
                have hbelow := forall_lt_add_one (List.forall_mem_cons.mp hlt).2
                rw [pairsFrom_closing_cons, List.lookup_cons, hne, closingOffset?_closing_succ,
                  map_add_one]
                exact ih hnodup hbelow hn
      · rw [pairsFrom_other _ _ _ hc, ih hnodup (forall_lt_add_one hlt) hn,
          closingOffset?_other _ _ hc, map_add_one]

/-- The partner of an opening bracket that is still ahead of the reading. -/
theorem lookup_pairsFrom_ahead {pos m : Nat} {waiting : List Nat} {t u : Text}
    (hnodup : waiting.Nodup) (hlt : ∀ i ∈ waiting, i < pos) (hm : t.drop m = '(' :: u) :
    (pairsFrom pos waiting t).lookup (pos + m) =
      (closingOffset? 0 u).map (pos + m + 1 + ·) := by
  induction t generalizing pos m waiting with
  | nil => simp at hm
  | cons c t ih =>
      cases m with
      | zero =>
          obtain ⟨rfl, rfl⟩ : c = '(' ∧ t = u := by simpa using hm
          rw [pairsFrom_opening]
          exact lookup_pairsFrom_waiting t (nodup_push hnodup hlt) (forall_lt_push hlt) (by simp)
      | succ m =>
          have hm : t.drop m = '(' :: u := by simpa using hm
          have hpos : pos + (m + 1) = pos + 1 + m := by omega
          rw [hpos]
          rcases eq_opening_or_closing_or_other c with rfl | rfl | hc
          · exact ih (nodup_push hnodup hlt) (forall_lt_push hlt) hm
          · cases waiting with
            | nil => exact ih hnodup (forall_lt_add_one hlt) hm
            | cons latest earlier =>
                have hne : (pos + 1 + m == latest) = false := by
                  have := hlt latest List.mem_cons_self
                  simp only [beq_eq_false_iff_ne]
                  omega
                rw [pairsFrom_closing_cons, List.lookup_cons, hne]
                exact ih (List.nodup_cons.mp hnodup).2
                  (forall_lt_add_one (List.forall_mem_cons.mp hlt).2) hm
          · rw [pairsFrom_other _ _ _ hc]
            exact ih hnodup (forall_lt_add_one hlt) hm

/-- **Partners by counting.**  The reading of a whole text pairs an opening bracket with the bracket that
counting from behind it comes to. -/
theorem lookup_pairs {t u : Text} {position : Nat} (h : t.drop position = '(' :: u) :
    (pairs t).lookup position = (closingOffset? 0 u).map (position + 1 + ·) := by
  have hahead : (pairsFrom 0 [] t).lookup (0 + position) =
      (closingOffset? 0 u).map (0 + position + 1 + ·) :=
    lookup_pairsFrom_ahead List.nodup_nil (by simp) h
  simpa [pairs] using hahead

end InfixFormula.Bracket

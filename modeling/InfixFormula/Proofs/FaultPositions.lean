import InfixFormula.Proofs.Faults

/-!
# Faults lie where reading finds them

A text that is not read has a fault, and the fault lies at the position that the error names
(`Formula.liesAt_of_parse`).

The descent looks at three sorts of pieces: the whole text, the inside of a bracket pair, and what stands
between brackets and operators (`PieceOf`).  Each piece that a level looks at is one of them again
(`LevelAt`), so a fault that the level below finds lies where it says, and what is left are the faults
that the level finds itself: brackets without a partner while it is read, and items that do not alternate
once it has been read.
-/

namespace InfixFormula

namespace Reader

variable {r : Reader} {buffer : Text}

/-- A fault of a piece is that it is blank, or that its only token is rejected. -/
theorem of_piece_malformed {depth start p : Nat} {t : Text} {fault : Fault}
    (h : r.piece depth start t = .error (.malformed p fault)) :
    t.isBlank = true ∧ fault = .emptyExpression ∧ p = start + t.length ∨
      ∃ reason, Literal.rejection t.trim = some reason ∧ t.trim.any Literal.isDelimiter = false ∧
        fault = .badToken reason t.trim ∧ p = start + t.margin.length := by
  unfold piece at h
  rw [Text.isEmpty_trim] at h
  grind

/-- A piece of the buffer, as reading comes to it. -/
inductive PieceOf (buffer : Text) : Nat → Text → Prop where
  | whole : PieceOf buffer 0 buffer
  | inside {before t after : Text} (hbuffer : buffer = before ++ '(' :: (t ++ ')' :: after))
      (hbalanced : Bracket.isBalanced 0 t = true) : PieceOf buffer (before.length + 1) t
  | between {before t after : Text} (hbuffer : buffer = before ++ (t ++ after))
      (hbefore : before.EndsDelimited) (hafter : after.StartsDelimited)
      (hplain : t.any Literal.isDelimiter = false) (hblank : t.isBlank = false) :
      PieceOf buffer before.length t

/-- A token that is rejected lies where the stretch around it has its first character. -/
theorem liesAt_badToken {before t after : Text} {reason : TokenFault}
    (hbuffer : buffer = before ++ (t ++ after)) (hbefore : before.EndsDelimited)
    (hafter : after.StartsDelimited) (hreason : Literal.rejection t.trim = some reason)
    (hplain : t.trim.any Literal.isDelimiter = false) :
    (Fault.badToken reason t.trim).LiesAt buffer (before.length + t.margin.length) := by
  have hblank : t.isBlank = false := by
    rw [Bool.eq_false_iff, Ne, ← Text.trim_eq_nil_iff]
    intro hnil
    rw [hnil] at hreason
    cases hreason
  obtain ⟨u, w, rfl, hw, hlast⟩ := before.exists_eq_append_lastVisible?
  obtain ⟨w', u', rfl, hw', hhead⟩ := after.exists_eq_append_firstVisible?
  obtain ⟨v, hv, hsplit⟩ := t.exists_eq_margin_trim
  have hstretch : w ++ t ++ w' = w ++ t.margin ++ t.trim ++ (v ++ w') := by
    calc w ++ t ++ w' = w ++ (t.margin ++ t.trim ++ v) ++ w' := by rw [← hsplit]
      _ = w ++ t.margin ++ t.trim ++ (v ++ w') := by simp
  have hleft : Text.isBlank (w ++ t.margin) = true := by
    rw [Text.isBlank_append, hw, t.isBlank_margin]
    rfl
  have hright : Text.isBlank (v ++ w') = true := by
    rw [Text.isBlank_append, hv, hw']
    rfl
  refine ⟨u, w ++ t ++ w', u', ?_, ?_, ?_, ?_, ?_, ?_, hreason⟩
  · rw [hbuffer]
    simp
  · rw [hstretch, List.any_append, List.any_append, Layout.any_isDelimiter ⟨_, hleft⟩, hplain,
      Layout.any_isDelimiter ⟨_, hright⟩]
    rfl
  · intro c hc
    rw [hlast] at hc
    exact hbefore c hc
  · intro c hc
    rw [hhead] at hc
    exact hafter c hc
  · rw [hstretch, Text.trim_between hleft (Text.isTight_trim hblank) hright]
  · rw [hstretch, Text.margin_between hleft (Text.isTight_trim hblank)]
    simp only [List.length_append]
    omega

/-- A piece that is no operand at all has its fault where the error says. -/
theorem liesIn_of_piece {depth start : Nat} {t : Text} (h : PieceOf r.buffer start t) {e : Error}
    (he : r.piece depth start t = .error e) : e.LiesIn r.buffer := by
  cases e with
  | malformed p fault =>
      rcases of_piece_malformed he with ⟨hblank, rfl, rfl⟩ | ⟨reason, hreason, hplain, rfl, rfl⟩
      · cases h with
        | whole => exact .inl ⟨hblank, Nat.zero_add _⟩
        | @inside before t after hbuffer hbalanced =>
            have hcut : r.buffer = before ++ ['('] ++ t ++ ')' :: after := by simpa using hbuffer
            have hlength : before.length + 1 + t.length = (before ++ ['('] ++ t).length := by
              simp only [List.length_append, List.length_singleton]
            obtain ⟨hchar, hbefore, -⟩ := Text.cut hcut
            rw [hlength]
            refine .inr ⟨hchar, ?_⟩
            rw [hbefore, Text.lastVisible?_append hblank, Text.lastVisible?_concat rfl]
        | between hbuffer hbefore hafter hplain hvisible =>
            rw [hvisible] at hblank
            cases hblank
      · cases h with
        | whole =>
            have hcut : r.buffer = [] ++ (r.buffer ++ []) := by simp
            exact liesAt_badToken hcut Text.endsDelimited_nil Text.startsDelimited_nil hreason hplain
        | @inside before t after hbuffer hbalanced =>
            have hcut : r.buffer = before ++ ['('] ++ (t ++ ')' :: after) := by simpa using hbuffer
            have hbad := liesAt_badToken hcut (Text.endsDelimited_concat rfl before)
              (Text.startsDelimited_cons rfl after) hreason hplain
            rwa [List.length_append] at hbad
        | between hbuffer hbefore hafter hplain' hvisible =>
            exact liesAt_badToken hbuffer hbefore hafter hreason hplain
  | tooDeep limit phase => trivial
  | missingVariable name => trivial
  | invalid defect => trivial

section Level

variable {below : Nat → Text → Except Error Operand} {after front pending rest t : Text}

/-- A level that is being read.  Behind `front`, which has become items, the characters `pending` have
been collected, the latest first, and `rest` is still to be read.  The brackets of the rest have their
partners in it, or there are none in front of the level and behind it. -/
structure LevelAt (buffer after front pending rest : Text) : Prop where
  cut : buffer = front ++ (pending.reverse ++ (rest ++ after))
  plain : pending.any Literal.isDelimiter = false
  ends : front.EndsDelimited
  starts : after.StartsDelimited
  brackets : Bracket.isBalanced 0 rest = true ∨
    Bracket.isBalanced 0 front = true ∧ Bracket.isFlat after = true

namespace LevelAt

/-- What has been collected has no brackets. -/
theorem isBalanced_pending (h : LevelAt buffer after front pending rest) :
    Bracket.isBalanced 0 pending.reverse = true := by
  apply Bracket.isBalanced_of_isFlat
  rw [Bracket.isFlat, List.all_reverse, List.all_eq_true]
  intro c hc
  have hplain : Literal.isDelimiter c = false := by simpa using List.any_eq_false.mp h.plain c hc
  rw [Bracket.isBracket_of_isDelimiter hplain, Bool.not_false]

/-- What has been collected is a piece where it ends. -/
theorem between (h : LevelAt buffer after front pending rest)
    (hrest : Text.StartsDelimited (rest ++ after)) (hblank : Text.isBlank pending.reverse = false) :
    PieceOf buffer front.length pending.reverse :=
  .between h.cut h.ends hrest (by rw [List.any_reverse]; exact h.plain) hblank

/-- The inside of a bracket pair is a piece. -/
theorem inside (h : LevelAt buffer after front pending ('(' :: (t ++ ')' :: rest)))
    (ht : Bracket.isBalanced 0 t = true) :
    PieceOf buffer ((front ++ pending.reverse).length + 1) t := by
  have hbuffer : buffer = front ++ pending.reverse ++ '(' :: (t ++ ')' :: (rest ++ after)) := by
    simpa using h.cut
  exact .inside hbuffer ht

/-- Behind a bracket pair the level goes on. -/
theorem behind (h : LevelAt buffer after front pending ('(' :: (t ++ ')' :: rest)))
    (ht : Bracket.isBalanced 0 t = true) :
    LevelAt buffer after (front ++ pending.reverse ++ ('(' :: t ++ [')'])) [] rest := by
  have hpair : Bracket.isBalanced 0 ('(' :: t ++ [')']) = true := by
    rw [List.cons_append, Bracket.isBalanced_opening]
    simpa using Bracket.isBalanced_append ht 1 [')']
  have hrest : '(' :: (t ++ ')' :: rest) = ('(' :: t ++ [')']) ++ rest := by simp
  refine ⟨?_, rfl, ?_, h.starts, ?_⟩
  · rw [h.cut]
    simp
  · rw [← List.append_assoc]
    exact Text.endsDelimited_concat rfl _
  · refine h.brackets.imp ?_ (And.imp_left ?_)
    · intro hbalanced
      rwa [hrest, Bracket.isBalanced_balanced_append hpair] at hbalanced
    · intro hbalanced
      rw [List.append_assoc, Bracket.isBalanced_balanced_append hbalanced,
        Bracket.isBalanced_balanced_append h.isBalanced_pending, hpair]

/-- Behind an operator the level goes on. -/
theorem operator {op : Operator} (h : LevelAt buffer after front pending (op.symbol :: rest)) :
    LevelAt buffer after (front ++ pending.reverse ++ [op.symbol]) [] rest := by
  have hop : Bracket.isBracket op.symbol = false := by cases op <;> rfl
  refine ⟨?_, rfl, endsDelimited_symbol _ op, h.starts, ?_⟩
  · rw [h.cut]
    simp
  · refine h.brackets.imp ?_ (And.imp_left ?_)
    · intro hbalanced
      rwa [Bracket.isBalanced_other _ _ hop] at hbalanced
    · intro hbalanced
      rw [List.append_assoc, Bracket.isBalanced_balanced_append hbalanced,
        Bracket.isBalanced_balanced_append h.isBalanced_pending, Bracket.isBalanced_other _ _ hop]
      rfl

/-- Any other character is collected. -/
theorem other {c : Char} (hc : Literal.isDelimiter c = false)
    (h : LevelAt buffer after front pending (c :: rest)) :
    LevelAt buffer after front (c :: pending) rest := by
  have hbrackets := h.brackets
  rw [Bracket.isBalanced_other _ _ (Bracket.isBracket_of_isDelimiter hc)] at hbrackets
  refine ⟨?_, ?_, h.ends, h.starts, hbrackets⟩
  · rw [h.cut]
    simp
  · rw [List.any_cons, hc]
    exact h.plain

/-- A closing bracket that the level comes to has no partner. -/
theorem liesAt_closing (h : LevelAt buffer after front pending (')' :: rest)) :
    Fault.unmatchedClosing.LiesAt buffer (front ++ pending.reverse).length := by
  have hbuffer : buffer = front ++ pending.reverse ++ ')' :: (rest ++ after) := by simpa using h.cut
  refine ⟨(Text.cut hbuffer).1, ?_⟩
  rcases h.brackets with hbalanced | ⟨hbalanced, -⟩
  · cases hbalanced
  · rw [hbuffer]
    apply Bracket.isFirstUnmatched_closing
    rw [Bracket.isBalanced_balanced_append hbalanced, h.isBalanced_pending]

/-- An opening bracket that counting in the level finds no partner for has none. -/
theorem liesAt_opening (h : LevelAt buffer after front pending ('(' :: rest))
    (hk : Bracket.closingOffset? 0 rest = none) :
    Fault.unmatchedOpening.LiesAt buffer (front ++ pending.reverse).length := by
  have hbuffer : buffer = front ++ pending.reverse ++ '(' :: (rest ++ after) := by simpa using h.cut
  refine ⟨(Text.cut hbuffer).1, ?_⟩
  rcases h.brackets with hbalanced | ⟨hbalanced, hflat⟩
  · rw [Bracket.isBalanced_opening] at hbalanced
    obtain ⟨k, hk'⟩ := Bracket.exists_closingOffset?_of_isBalanced hbalanced
    rw [hk] at hk'
    cases hk'
  · rw [hbuffer]
    apply Bracket.isFirstUnmatched_opening
    · rw [Bracket.isBalanced_balanced_append hbalanced, h.isBalanced_pending]
    · rw [Bracket.closingOffset?_append_flat hflat, hk]

end LevelAt

section Failures

variable {mark position : Nat} {e : Error}

/-- At an opening bracket a level fails for what has been collected, for the bracket, for the inside of the
pair or for what stands behind it. -/
theorem failure_of_itemsFrom_opening
    (h : itemsFrom below mark pending position ('(' :: rest) = .error e) :
    operandBetween below mark pending.reverse = .error e ∨
      Bracket.closingOffset? 0 rest = none ∧ e = .malformed position .unmatchedOpening ∨
      ∃ k, Bracket.closingOffset? 0 rest = some k ∧
        (below (position + 1) (rest.take k) = .error e ∨
          itemsFrom below (position + k + 2) [] (position + k + 2) (rest.drop (k + 1)) = .error e) := by
  rw [itemsFrom_opening] at h
  cases hnew : operandBetween below mark pending.reverse with
  | error e' => exact .inl (by simpa [hnew] using h)
  | ok new =>
      right
      cases hk : Bracket.closingOffset? 0 rest with
      | none =>
          simp only [hnew, hk, Except.error.injEq] at h
          exact .inl ⟨rfl, h.symm⟩
      | some k =>
          refine .inr ⟨k, rfl, ?_⟩
          cases ho : below (position + 1) (rest.take k) with
          | error e' => exact .inl (by simpa [hnew, hk, ho] using h)
          | ok o =>
              right
              cases hlater : itemsFrom below (position + k + 2) [] (position + k + 2)
                  (rest.drop (k + 1)) with
              | error e' => simpa [hnew, hk, ho, hlater] using h
              | ok later => simp [hnew, hk, ho, hlater] at h

/-- At an operator a level fails for what has been collected or for what stands behind. -/
theorem failure_of_itemsFrom_operator {op : Operator}
    (h : itemsFrom below mark pending position (op.symbol :: rest) = .error e) :
    operandBetween below mark pending.reverse = .error e ∨
      itemsFrom below (position + 1) [] (position + 1) rest = .error e := by
  rw [itemsFrom_operator] at h
  cases hnew : operandBetween below mark pending.reverse with
  | error e' => exact .inl (by simpa [hnew] using h)
  | ok new =>
      right
      cases hlater : itemsFrom below (position + 1) [] (position + 1) rest with
      | error e' => simpa [hnew, hlater] using h
      | ok later => simp [hnew, hlater] at h

end Failures

/-- A fault that the level below finds lies where it says. -/
def Locates (below : Nat → Text → Except Error Operand) (buffer : Text) : Prop :=
  ∀ {start : Nat} {t : Text} {e : Error},
    PieceOf buffer start t → below start t = .error e → e.LiesIn buffer

/-- The fault of an operand lies where it says, if those that the reader below finds do. -/
theorem liesIn_of_operandBetween (hbelow : Locates below buffer)
    (h : LevelAt buffer after front pending rest) (hrest : Text.StartsDelimited (rest ++ after))
    {e : Error} (he : operandBetween below front.length pending.reverse = .error e) :
    e.LiesIn buffer := by
  unfold operandBetween at he
  split at he
  · cases he
  · next hblank =>
      have hpiece := h.between hrest (by simpa using hblank)
      cases hread : below front.length pending.reverse with
      | ok o =>
          rw [hread] at he
          cases he
      | error e' =>
          rw [hread] at he
          cases he
          exact hbelow hpiece hread

/-- **Faults of a level.**  A fault that is found while a level is read lies where it says. -/
theorem liesIn_of_itemsFrom (hbelow : Locates below buffer) {front pending rest : Text}
    {mark position : Nat} (hmark : mark = front.length)
    (hposition : position = (front ++ pending.reverse).length)
    (h : LevelAt buffer after front pending rest) {e : Error}
    (he : itemsFrom below mark pending position rest = .error e) : e.LiesIn buffer := by
  subst hmark hposition
  cases rest with
  | nil =>
      rw [itemsFrom_nil] at he
      exact liesIn_of_operandBetween hbelow h h.starts he
  | cons c rest =>
      rcases Literal.eq_bracket_or_symbol_or_other c with rfl | rfl | ⟨op, rfl⟩ | hc
      · rcases failure_of_itemsFrom_opening he with he | ⟨hk, rfl⟩ | ⟨k, hk, he⟩
        · exact liesIn_of_operandBetween hbelow h (Text.startsDelimited_cons rfl _) he
        · exact h.liesAt_opening hk
        · obtain ⟨t, rest', rfl, ht, rfl⟩ := Bracket.exists_cut_of_closingOffset? hk
          rw [List.take_left, (Text.cut rfl).2.2] at he
          rcases he with he | he
          · exact hbelow (h.inside ht) he
          · refine liesIn_of_itemsFrom hbelow ?_ ?_ (h.behind ht) he
            · simp; omega
            · simp; omega
      · rw [itemsFrom_closing] at he
        cases he
        exact h.liesAt_closing
      · rcases failure_of_itemsFrom_operator he with he | he
        · exact liesIn_of_operandBetween hbelow h
            (Text.startsDelimited_cons (Literal.isDelimiter_symbol op) _) he
        · refine liesIn_of_itemsFrom hbelow ?_ ?_ h.operator he
          · simp; omega
          · simp; omega
      · rw [itemsFrom_other _ _ _ _ _ hc] at he
        exact liesIn_of_itemsFrom hbelow rfl (by simp; omega) (h.other hc) he
termination_by rest.length

/-- What has been collected is layout or a leaf. -/
theorem row_of_operandBetween {n : Nat} (hbelow : ReadsOnly below buffer n)
    (ht : t.any Literal.isDelimiter = false) {new : List Item}
    (hnew : operandBetween below front.length t = .ok new) {later : List Item}
    (hlater : ∀ behindLeaf, Row buffer after behindLeaf (front ++ t) rest later) :
    Row buffer after false front (t ++ rest) (new ++ later) := by
  unfold operandBetween at hnew
  split at hnew
  · next hblank =>
      cases hnew
      exact (hlater false).blank_append ⟨t, hblank⟩
  · split at hnew
    · cases hnew
    · next o ho =>
        cases hnew
        obtain ⟨c, rfl, -, rfl⟩ := hbelow _ _ _ ho
        cases c with
        | sole before l behind =>
            have hl : l.isSigned = false := by
              simp only [Phrase.text, List.any_append, Bool.or_eq_false_iff] at ht
              rw [← l.any_isDelimiter_text]
              exact ht.1.2
            have hrow : Row buffer after true (front ++ before.text ++ l.text ++ behind.text) rest
                later := by
              simpa [Phrase.text] using hlater true
            have hleaf := Row.leaf before l hl (hrow.blank_append behind)
            rw [Phrase.core_sole]
            simpa [Phrase.text] using hleaf
        | compound before inner behind hleaf hcontent =>
            have hinner := inner.any_isDelimiter_text hleaf hcontent
            simp [Phrase.text, hinner] at ht

/-- A bracket pair without layout in front. -/
theorem row_pair {behindLeaf : Bool} (inside : Phrase .content) {later : List Item}
    (h : Row buffer after false (front ++ inside.pair.text) rest later) :
    Row buffer after behindLeaf front (inside.pair.text ++ rest)
      (.operand (inside.pair.operand buffer front.length) :: later) := by
  have hrow : Row buffer after behindLeaf front ([] ++ (inside.pair.text ++ rest))
      (.operand (inside.pair.operand buffer (front ++ []).length) :: later) :=
    .pair .none inside (by simpa [Layout.none] using h)
  simpa using hrow

/-- An operator without layout in front. -/
theorem row_operator {behindLeaf : Bool} (op : Operator) {later : List Item}
    (h : Row buffer after false (front ++ [op.symbol]) rest later) :
    Row buffer after behindLeaf front (op.symbol :: rest) (.operator op front.length :: later) := by
  have hrow : Row buffer after behindLeaf front ([] ++ op.symbol :: rest)
      (.operator op (front ++ []).length :: later) :=
    .operator .none op (by simpa [Layout.none] using h)
  simpa using hrow

/-- **Items of a level.**  The items that a level is read to stand in the text in a row. -/
theorem row_of_itemsFrom {n : Nat} (hbelow : ReadsOnly below buffer n) {front pending rest : Text}
    {mark position : Nat} (hmark : mark = front.length)
    (hposition : position = (front ++ pending.reverse).length)
    (hpending : pending.any Literal.isDelimiter = false) {found : List Item}
    (h : itemsFrom below mark pending position rest = .ok found) :
    Row buffer after false front (pending.reverse ++ (rest ++ after)) found := by
  subst hmark hposition
  have hplain : pending.reverse.any Literal.isDelimiter = false := by rwa [List.any_reverse]
  cases rest with
  | nil =>
      rw [itemsFrom_nil] at h
      have hend : ∀ behindLeaf, Row buffer after behindLeaf (front ++ pending.reverse) after [] :=
        fun _ => .nil .none
      simpa using row_of_operandBetween hbelow hplain h hend
  | cons c rest =>
      rcases Literal.eq_bracket_or_symbol_or_other c with rfl | rfl | ⟨op, rfl⟩ | hc
      · obtain ⟨new, k, o, later, hnew, hk, ho, hlater, rfl⟩ := exists_of_itemsFrom_opening h
        obtain ⟨t, rest', rfl, -, rfl⟩ := Bracket.exists_cut_of_closingOffset? hk
        rw [List.take_left] at ho
        rw [(Text.cut rfl).2.2] at hlater
        obtain ⟨inside, rfl, -, rfl⟩ := hbelow _ _ _ ho
        have hlength : (front ++ pending.reverse).length + inside.text.length + 2 =
            (front ++ pending.reverse ++ inside.pair.text).length := by
          rw [Nat.add_assoc, ← Phrase.length_text_pair, ← List.length_append]
        have hbehind := row_of_itemsFrom hbelow hlength (by rw [hlength]; simp) rfl hlater
        have hrow := row_of_operandBetween hbelow hplain hnew (fun _ => row_pair inside hbehind)
        have hoperand : inside.pair.operand buffer (front ++ pending.reverse).length =
            ⟨(inside.core buffer ((front ++ pending.reverse).length + 1)).tree,
              ⟨(front ++ pending.reverse).length,
                (front ++ pending.reverse).length + inside.text.length + 2⟩⟩ := by
          rw [Nat.add_assoc _ inside.text.length, ← Phrase.length_text_pair]
          rfl
        rw [← hoperand]
        simpa [Phrase.text] using hrow
      · rw [itemsFrom_closing] at h
        cases h
      · obtain ⟨new, later, hnew, hlater, rfl⟩ := exists_of_itemsFrom_operator h
        have hlength : (front ++ pending.reverse).length + 1 =
            (front ++ pending.reverse ++ [op.symbol]).length := by
          rw [← List.length_singleton (a := op.symbol), ← List.length_append]
        have hbehind := row_of_itemsFrom hbelow hlength (by rw [hlength]; simp) rfl hlater
        simpa using row_of_operandBetween hbelow hplain hnew (fun _ => row_operator op hbehind)
      · rw [itemsFrom_other _ _ _ _ _ hc] at h
        have hcollected : (c :: pending).any Literal.isDelimiter = false := by
          rw [List.any_cons, hc]
          exact hpending
        have hrow := row_of_itemsFrom hbelow rfl (by simp; omega) hcollected h
        simpa using hrow
termination_by rest.length

end Level

/-- The levels below a level read nothing but contents. -/
theorem readsOnly_descend (r : Reader) (depth : Nat) :
    ReadsOnly (r.descend depth) r.buffer (r.limit - depth + 1) := by
  intro start t o h
  obtain ⟨c, hc, hnesting, ho⟩ := exists_of_descend h
  exact ⟨c, hc, by omega, ho⟩

/-- The contents of a compound piece are a level, with nothing but layout up to the brackets around them
or the ends of the text. -/
theorem PieceOf.exists_levelAt {start : Nat} {t : Text} (h : PieceOf buffer start t)
    (hdelimiter : t.trim.any Literal.isDelimiter = true) :
    ∃ front after, LevelAt buffer after front [] t.trim ∧ front.OpensLevel ∧ after.ClosesLevel ∧
      front.length = start + t.margin.length := by
  obtain ⟨w, hw, hsplit⟩ := t.exists_eq_margin_trim
  have hmargin := t.isBlank_margin
  cases h with
  | whole =>
      have hopens : Text.OpensLevel ([] ++ buffer.margin) := .inl (Text.lastVisible?_append hmargin [])
      have hcloses : Text.ClosesLevel (w ++ []) := .inl (Text.firstVisible?_append hw [])
      rw [List.nil_append] at hopens
      rw [List.append_nil] at hcloses
      refine ⟨buffer.margin, w, ⟨?_, rfl, hopens.endsDelimited, hcloses.startsDelimited, .inr ⟨?_, ?_⟩⟩,
        hopens, hcloses, (Nat.zero_add _).symm⟩
      · simpa using hsplit
      · exact Bracket.isBalanced_of_isBlank hmargin
      · exact Bracket.isFlat_of_isBlank hw
  | @inside before t after hbuffer hbalanced =>
      have hopens : Text.OpensLevel (before ++ ['('] ++ t.margin) := by
        right
        rw [Text.lastVisible?_append hmargin, Text.lastVisible?_concat rfl]
      have hcloses : Text.ClosesLevel (w ++ ')' :: after) := by
        right
        rw [Text.firstVisible?_append hw, Text.firstVisible?_cons rfl]
      have hcut : buffer = before ++ ['('] ++ (t.margin ++ t.trim ++ w) ++ ')' :: after := by
        rw [← hsplit]
        simpa using hbuffer
      refine ⟨before ++ ['('] ++ t.margin, w ++ ')' :: after,
        ⟨?_, rfl, hopens.endsDelimited, hcloses.startsDelimited, .inl ?_⟩, hopens, hcloses, ?_⟩
      · rw [hcut]
        simp
      · rw [Bracket.isBalanced_trim, hbalanced]
      · simp only [List.length_append, List.length_singleton]
  | between hbuffer hbefore hafter hplain hblank =>
      obtain ⟨c, hmem, hc⟩ := List.any_eq_true.mp hdelimiter
      exact absurd hc (List.any_eq_false.mp hplain c (Text.mem_of_mem_trim hmem))

/-- A piece fails for itself, or while its level is read, or for the items that have been read. -/
theorem failure_of_descend {depth start : Nat} {t : Text} {e : Error}
    (h : r.descend depth start t = .error e) :
    r.piece depth start t = .error e ∨
      depth ≤ r.limit ∧ t.trim.any Literal.isDelimiter = true ∧
        (itemsFrom (r.descend (depth + 1)) (t.coreSpan start).start [] (t.coreSpan start).start t.trim =
            .error e ∨
          ∃ found, itemsFrom (r.descend (depth + 1)) (t.coreSpan start).start [] (t.coreSpan start).start
              t.trim = .ok found ∧
            Chain.ofItems (t.coreSpan start).start found = .error e) := by
  cases hpiece : r.piece depth start t with
  | error e' =>
      rw [descend_of_error hpiece] at h
      cases h
      exact .inl rfl
  | ok piece =>
      right
      cases piece with
      | leaf o =>
          rw [descend_of_leaf hpiece] at h
          cases h
      | compound contents range =>
          obtain ⟨hdepth, -, -, hdelimiter, rfl, rfl⟩ := piece_eq_compound_iff.mp hpiece
          refine ⟨hdepth, hdelimiter, ?_⟩
          rw [descend_of_compound hpiece] at h
          cases hfound : itemsFrom (r.descend (depth + 1)) (t.coreSpan start).start []
              (t.coreSpan start).start t.trim with
          | error e' => exact .inl (by simpa [hfound] using h)
          | ok found =>
              refine .inr ⟨found, rfl, ?_⟩
              cases hchain : Chain.ofItems (t.coreSpan start).start found with
              | error e' => simpa [hfound, Chain.treeOf, hchain] using h
              | ok chain => simp [hfound, Chain.treeOf, hchain] at h

/-- **Faults of a piece.**  A fault that is found in a piece lies where it says. -/
theorem liesIn_of_descend {depth start : Nat} {t : Text} (h : PieceOf r.buffer start t) {e : Error}
    (he : r.descend depth start t = .error e) : e.LiesIn r.buffer := by
  rcases failure_of_descend he with hpiece | ⟨hdepth, hdelimiter, hlevel⟩
  · exact liesIn_of_piece h hpiece
  · obtain ⟨front, after, hat, hopens, hcloses, hlength⟩ := h.exists_levelAt hdelimiter
    have hmark : (t.coreSpan start).start = front.length := hlength.symm
    have hposition : (t.coreSpan start).start = (front ++ [].reverse).length := by simpa using hmark
    rcases hlevel with hitems | ⟨found, hfound, hchain⟩
    · have hbelow : Locates (r.descend (depth + 1)) r.buffer := fun h he => liesIn_of_descend h he
      exact liesIn_of_itemsFrom hbelow hmark hposition hat hitems
    · have hrow : Row r.buffer after false front ([].reverse ++ (t.trim ++ after)) found :=
        row_of_itemsFrom (r.readsOnly_descend (depth + 1)) hmark hposition rfl hfound
      exact liesIn_of_ofItems hopens hcloses (hrow.ne_nil hdelimiter) hat.cut hrow hchain
termination_by r.limit + 1 - depth

/-- A fault that ends the reading lies where it says. -/
theorem liesIn_of_tree {e : Error} (h : r.tree = .error e) : e.LiesIn r.buffer := by
  rw [tree_eq_descend] at h
  cases hread : r.descend 0 0 r.buffer with
  | error e' =>
      rw [hread] at h
      cases h
      exact liesIn_of_descend .whole hread
  | ok o =>
      rw [hread] at h
      cases h

end Reader

/-- The fault of a text that is malformed lies at the position of the error. -/
theorem Tree.liesAt_of_error {limit p : Nat} {text : Text} {fault : Fault}
    (h : Tree.parse limit text = .error (.malformed p fault)) : fault.LiesAt (Bracket.ascii text) p :=
  Reader.liesIn_of_tree (r := ⟨limit, Bracket.ascii text⟩) h

/-- No fault is reported beyond the end of the text. -/
theorem Tree.position_le_of_error {limit p : Nat} {text : Text} {fault : Fault}
    (h : Tree.parse limit text = .error (.malformed p fault)) : p ≤ text.length := by
  have hlength := (liesAt_of_error h).le_length
  rwa [Bracket.length_ascii] at hlength

/-- **Faults lie where the error says.**  If a text is not read because it is malformed, the position of
the error is a position of the text, and the fault lies there.  The text of the error names that fault and
no other. -/
theorem Formula.liesAt_of_parse {limit p : Nat} {text : Text} {fault : Fault}
    (h : Formula.parse limit text = .error (.malformed p fault)) :
    p ≤ text.length ∧ fault.LiesAt (Bracket.ascii text) p ∧
      ∀ named : Fault, named.isNamed = true → named.message = fault.message → named = fault := by
  have hread := Formula.parse_eq_error_iff.mp h
  have hlies := Tree.liesAt_of_error hread
  exact ⟨Tree.position_le_of_error hread, hlies,
    fun named hnamed hmessage => Fault.eq_of_message_eq hnamed hlies.isNamed hmessage⟩

open Reader in
/-- The operator is missing where the second operand starts. -/
theorem Formula.liesAt_of_missing_operator :
    Formula.parse 9 "a*（b）c".toList = .error (.malformed 5 .missingOperator) ∧
      5 ≤ "a*（b）c".toList.length ∧ Fault.missingOperator.LiesAt "a*(b)c".toList 5 ∧
      ∀ named : Fault, named.isNamed = true → named.message = "missing operator" →
        named = .missingOperator := by
  have hleaf : ∀ c ∈ ['a', 'b', 'c'], ∀ start, descend ⟨9, ['a', '*', '(', 'b', ')', 'c']⟩ 1 start [c] =
      .ok ⟨.var [c], ⟨start, start + 1⟩⟩ := by
    intro c hc start
    apply descend_of_leaf
    simp only [List.mem_cons, List.not_mem_nil, or_false] at hc
    rcases hc with rfl | rfl | rfl <;> rfl
  have hpiece : piece ⟨9, "a*(b)c".toList⟩ 0 0 "a*(b)c".toList =
      .ok (.compound "a*(b)c".toList ⟨0, 6⟩) := rfl
  have hitems : itemsFrom (descend ⟨9, "a*(b)c".toList⟩ 1) 0 [] 0 "a*(b)c".toList =
      .ok [.operand ⟨.var ['a'], ⟨0, 1⟩⟩, .operator .multiply 1, .operand ⟨.var ['b'], ⟨2, 5⟩⟩,
        .operand ⟨.var ['c'], ⟨5, 6⟩⟩] := by
    simp [itemsFrom, operandBetween, hleaf, Text.isBlank, isLayout, Operator.ofChar?,
      Bracket.closingOffset?]
  have hascii : Bracket.ascii "a*（b）c".toList = "a*(b)c".toList := by decide
  have hread : Formula.parse 9 "a*（b）c".toList = .error (.malformed 5 .missingOperator) := by
    rw [Formula.parse, Tree.parse, Reader.tree_eq_descend, hascii, descend_of_compound hpiece, hitems]
    rfl
  exact ⟨hread, Formula.liesAt_of_parse hread⟩

end InfixFormula

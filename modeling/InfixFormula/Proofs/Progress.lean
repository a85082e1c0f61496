import InfixFormula.Proofs.Offsets
import InfixFormula.Proofs.StackReading

/-!
# The reading gets on

A state of the reading with a stack has places in the text: the position that has been reached, the mark
behind the latest item, and for each open group the span of its contents and that of its brackets.  How
they lie is `Scan.Placed`.  The collected characters and the rest of the group stand between the mark and
the end of the contents, and each group that waits contains the brackets of the group that is read in it.

Every step keeps this and leads to a position further on (`Scan.placed_step`).  Where a group is entered,
the position moves behind its bracket and the layout there; where one is left, it moves behind the closing
bracket, which lies beyond the contents.  Since no position lies beyond the end of the text, there are no
more steps than the text has bytes (`Scan.Reached.le_offset`), whatever its brackets are like.
-/

namespace InfixFormula

namespace Text.OccursAt

variable {buffer t : Text} {start : Nat}

/-- What is left between the margins stands behind the first one. -/
theorem trim (h : buffer.OccursAt start t) :
    buffer.OccursAt (start + t.margin.length) t.trim := by
  obtain ⟨w, -, ht⟩ := t.exists_eq_margin_trim
  rw [ht] at h
  exact h.left.right

theorem take (h : buffer.OccursAt start t) (k : Nat) : buffer.OccursAt start (t.take k) := by
  rw [← t.take_append_drop k] at h
  exact h.left

/-- The rest of a text stands behind what was dropped. -/
theorem drop (h : buffer.OccursAt start t) {k : Nat} (hk : k ≤ t.length) :
    buffer.OccursAt (start + k) (t.drop k) := by
  rw [← t.take_append_drop k] at h
  have hbehind := h.right
  rwa [List.length_take, Nat.min_eq_left hk] at hbehind

end Text.OccursAt

/-- Margin and core fit into the text. -/
theorem Text.length_margin_trim_le (t : Text) : t.margin.length + t.trim.length ≤ t.length := by
  obtain ⟨w, -, ht⟩ := t.exists_eq_margin_trim
  have hlength := congrArg List.length ht
  simp only [List.length_append] at hlength
  omega

/-- How a group lies around the bracket pair that is read in it: the pair has the contents `range` and,
brackets included, the span `span`. -/
structure Suspended.IsAround (buffer : Text) (range span : Span) (g : Suspended) : Prop where
  opens : span.start < span.stop
  closes : range.stop < span.stop
  contains : span.LiesIn g.frame.range
  rest : buffer.OccursAt span.stop g.rest
  stop : g.frame.range.stop = span.stop + g.rest.length

/-- Each group lies around the one that is read in it. -/
def Suspended.AreAround (buffer : Text) : Span → Span → List Suspended → Prop
  | _, _, [] => True
  | range, span, g :: outer =>
      g.IsAround buffer range span ∧ AreAround buffer g.frame.range g.frame.span outer

namespace Scan

/-- How the places of a state lie in the text. -/
structure Placed (buffer : Text) (s : Scan) : Prop where
  start : s.frame.range.start ≤ s.mark
  token : buffer.OccursAt s.mark (s.pending.reverse ++ s.rest)
  position : s.position = s.mark + s.pending.length
  stop : s.frame.range.stop = s.position + s.rest.length
  around : Suspended.AreAround buffer s.frame.range s.frame.span s.outer
  /-- As long as nothing has been found, there is a bracket or an operator to come to. -/
  delimited : s.frame.items = [] → (s.pending.reverse ++ s.rest).any Literal.isDelimiter = true

namespace Placed

variable {buffer : Text} {s : Scan}

/-- The scan never marks an operand ahead of itself. -/
theorem mark_le (h : s.Placed buffer) : s.mark ≤ s.position := by
  have hposition := h.position
  omega

/-- The scan stays inside its frame. -/
theorem position_le (h : s.Placed buffer) : s.position ≤ s.frame.range.stop := by
  have hstop := h.stop
  omega

/-- The rest of the group stands at the position. -/
theorem rest (h : s.Placed buffer) : buffer.OccursAt s.position s.rest := by
  have hrest := h.token.right
  rwa [List.length_reverse, ← h.position] at hrest

/-- What waits is the text since the mark. -/
theorem pending (h : s.Placed buffer) : buffer.OccursAt s.mark s.pending.reverse := h.token.left

theorem position_le_length (h : s.Placed buffer) : s.position ≤ buffer.length :=
  Nat.le_trans (Nat.le_add_right _ _) h.rest.le_length

end Placed

variable {r : Reader} {s next : Scan}

/-- A scan starts at the front of the contents. -/
theorem placed_start {t contents : Text} {range : Span} {depth start : Nat}
    (ht : r.buffer.OccursAt start t) (h : r.piece depth start t = .ok (.compound contents range)) :
    (Scan.start contents range).Placed r.buffer := by
  obtain ⟨-, -, -, hany, rfl, rfl⟩ := Reader.piece_eq_compound_iff.mp h
  exact ⟨Nat.le_refl _, ht.trim, rfl, rfl, trivial, fun _ => hany⟩

/-- Leaving a frame puts the scan behind the closing bracket, inside the frame around it. -/
theorem placed_leave (hs : s.Placed r.buffer) (hrest : s.rest = []) {items : List Item}
    (h : s.leave items r = .ok (.inr next)) :
    next.Placed r.buffer ∧ s.position < next.position := by
  unfold leave at h
  split at h
  · cases h
  · split at h
    · cases h
    · next parent outer houter =>
        cases h
        have hstop := hs.stop
        have haround := hs.around
        rw [houter] at haround
        obtain ⟨hparent, houter⟩ := haround
        have hopens := hparent.opens
        have hcloses := hparent.closes
        have hcontains := hparent.contains.1
        rw [hrest, List.length_nil] at hstop
        refine ⟨⟨?_, hparent.rest, rfl, hparent.stop, houter, ?_⟩, ?_⟩
        · simp only
          omega
        · intro hitems
          cases hitems
        · simp only
          omega

/-- The inside of a bracket pair is taken at once or becomes the innermost group. -/
theorem placed_openPair (hs : s.Placed r.buffer) {items : List Item} {tail : Text} {k : Nat}
    (hrest : s.rest = '(' :: tail) (hk : k < tail.length)
    (h : s.openPair items r tail (s.position + 1 + k) = .ok next) :
    next.Placed r.buffer ∧ s.position < next.position := by
  have hmark := hs.mark_le
  have hstart := hs.start
  have hstop := hs.stop
  have htail : r.buffer.OccursAt (s.position + 1) tail := by
    have hopening := hs.rest
    rw [hrest] at hopening
    exact hopening.tail
  have hbehind : r.buffer.OccursAt (s.position + 1 + k + 1) (tail.drop (k + 1)) :=
    htail.drop (Nat.succ_le_of_lt hk)
  have hlength : (tail.drop (k + 1)).length = tail.length - (k + 1) := List.length_drop
  have htake : s.position + 1 + k - (s.position + 1) = k := by omega
  have hdrop : s.position + 1 + k - s.position = k + 1 := by omega
  rw [hrest, List.length_cons] at hstop
  simp only [openPair, htake, hdrop] at h
  cases hpiece : r.piece (s.frame.depth + 1) (s.position + 1) (tail.take k) with
  | error e =>
      rw [hpiece] at h
      cases h
  | ok p =>
      rw [hpiece] at h
      cases p with
      | leaf o =>
          cases h
          refine ⟨⟨?_, hbehind, rfl, ?_, hs.around, ?_⟩, ?_⟩
          · simp only [resume]
            omega
          · simp only [resume, hlength]
            omega
          · intro hitems
            cases hitems
          · simp only [resume]
            omega
      | compound contents range =>
          cases h
          obtain ⟨-, -, -, hany, rfl, rfl⟩ := Reader.piece_eq_compound_iff.mp hpiece
          have hinside := Text.length_margin_trim_le (tail.take k)
          rw [List.length_take, Nat.min_eq_left (Nat.le_of_lt hk)] at hinside
          refine ⟨⟨Nat.le_refl _, (htail.take k).trim, rfl, rfl, ⟨⟨?_, ?_, ⟨?_, ?_⟩, hbehind, ?_⟩,
            hs.around⟩, fun _ => hany⟩, ?_⟩
          all_goals
            simp only [enter, Text.coreSpan, hlength]
            omega

/-- Behind an operator, the scan goes on inside the same frame. -/
theorem placed_operator (hs : s.Placed r.buffer) {op : Operator} {tail : Text}
    (hrest : s.rest = op.symbol :: tail) (items : List Item) :
    (s.resume (.operator op s.position :: items) (s.position + 1) tail).Placed r.buffer := by
  have hmark := hs.mark_le
  have hstart := hs.start
  have hstop := hs.stop
  have hbehind := hs.rest
  rw [hrest, List.length_cons] at hstop
  rw [hrest] at hbehind
  refine ⟨?_, hbehind.tail, rfl, ?_, hs.around, ?_⟩
  · simp only [resume]
    omega
  · simp only [resume]
    omega
  · intro hitems
    cases hitems

/-- A character that is collected stays between the mark and the end of the group. -/
theorem placed_other (hs : s.Placed r.buffer) {c : Char} {tail : Text} (hrest : s.rest = c :: tail) :
    Placed r.buffer { s with
      position := s.position + 1
      rest := tail
      pending := c :: s.pending } := by
  have hposition := hs.position
  have hstop := hs.stop
  have htoken : (c :: s.pending).reverse ++ tail = s.pending.reverse ++ s.rest := by
    rw [hrest]
    simp
  rw [hrest, List.length_cons] at hstop
  refine ⟨hs.start, ?_, ?_, ?_, hs.around, ?_⟩
  · rw [htoken]
    exact hs.token
  · simp only [List.length_cons]
    omega
  · simp only
    omega
  · rw [htoken]
    exact hs.delimited

/-- **Every step gets on.**  It keeps how the places lie, and its position is further on in the text. -/
theorem placed_step (ha : s.Aligned r) (hs : s.Placed r.buffer)
    (h : s.step r (Bracket.pairs r.buffer) = .ok (.inr next)) :
    next.Placed r.buffer ∧ s.position < next.position := by
  rcases next_cases h with ⟨items, hrest, hleave⟩ | ⟨tail, items, close, hrest, hlookup, hpair⟩ |
    ⟨op, tail, items, hrest, rfl⟩ | ⟨c, tail, hrest, -, rfl⟩
  · exact placed_leave hs hrest hleave
  · have hpartner := ha.rest
    rw [hrest] at hpartner
    rw [hpartner.lookup_pairs] at hlookup
    obtain ⟨k, hk, rfl⟩ := Option.map_eq_some_iff.mp hlookup
    exact placed_openPair hs hrest (Bracket.closingOffset?_lt hk) hpair
  · exact ⟨placed_operator hs hrest items, Nat.lt_succ_self _⟩
  · exact ⟨placed_other hs hrest, Nat.lt_succ_self _⟩

section Runs

variable {pairs : List (Nat × Nat)}

/-- A step that fails ends the run. -/
theorem run_of_error {e : Error} (h : s.step r pairs = .error e) : s.run r pairs = .error e := by
  rw [run]
  split <;> simp_all

/-- A step that yields the tree ends the run. -/
theorem run_of_tree {tree : Tree} (h : s.step r pairs = .ok (.inl tree)) :
    s.run r pairs = .ok tree := by
  rw [run]
  split <;> simp_all

/-- Any other step is followed by the rest of the run. -/
theorem run_of_next (h : s.step r pairs = .ok (.inr next)) : s.run r pairs = next.run r pairs := by
  rw [run]
  split <;> simp_all

/-- A step that leads to no further state has the outcome of the reading. -/
theorem step_eq_run (h : ∀ next, s.step r pairs ≠ .ok (.inr next)) :
    s.step r pairs = (s.run r pairs).map .inl := by
  cases hstep : s.step r pairs with
  | error e =>
      rw [run_of_error hstep]
      rfl
  | ok found =>
      cases found with
      | inl tree =>
          rw [run_of_tree hstep]
          rfl
      | inr next => exact absurd hstep (h next)

end Runs

/-- The state is reached when the buffer is read, after `n` steps. -/
inductive Reached (r : Reader) : Nat → Scan → Prop where
  | start {contents : Text} {range : Span} (h : r.piece 0 0 r.buffer = .ok (.compound contents range)) :
      Reached r 0 (Scan.start contents range)
  | step {n : Nat} {s next : Scan} (h : Reached r n s)
      (hstep : s.step r (Bracket.pairs r.buffer) = .ok (.inr next)) : Reached r (n + 1) next

namespace Reached

variable {n : Nat}

/-- Every scan that is reached knows where its texts stand. -/
theorem aligned (h : Reached r n s) : s.Aligned r := by
  induction h with
  | start h => exact aligned_start h
  | step h hstep ih =>
      have hagrees := agrees_step ih
      rw [hstep] at hagrees
      exact hagrees.2

/-- Every scan that is reached lies where the text says. -/
theorem placed (h : Reached r n s) : s.Placed r.buffer := by
  induction h with
  | start h => exact placed_start (.whole _) h
  | step h hstep ih => exact (placed_step h.aligned ih hstep).1

/-- From every state that is reached, the reading goes on to its result. -/
theorem run_eq (h : Reached r n s) : s.run r (Bracket.pairs r.buffer) = r.tree := by
  induction h with
  | start h => rw [Reader.tree, h]
  | step h hstep ih =>
      rw [← run_of_next hstep]
      exact ih

/-- By bytes too, every step gets on. -/
theorem offset_lt (h : Reached r n s) (hstep : s.step r (Bracket.pairs r.buffer) = .ok (.inr next)) :
    r.buffer.offset s.position < r.buffer.offset next.position := by
  obtain ⟨hnext, hlt⟩ := placed_step h.aligned h.placed hstep
  exact Text.offset_lt hlt (Nat.lt_of_lt_of_le hlt hnext.position_le_length)

/-- Each step moves the scan by a byte at least. -/
theorem le_offset (h : Reached r n s) : n ≤ r.buffer.offset s.position := by
  induction h with
  | start h => exact Nat.zero_le _
  | step h hstep ih => exact Nat.lt_of_le_of_lt ih (h.offset_lt hstep)

/-- From every state that is reached, the last step is reached, which has the outcome of the reading. -/
theorem exists_last {r : Reader} {n : Nat} {s : Scan} (h : Reached r n s) :
    ∃ m last, Reached r m last ∧ last.step r (Bracket.pairs r.buffer) = r.tree.map .inl := by
  by_cases hlast : ∃ next, s.step r (Bracket.pairs r.buffer) = .ok (.inr next)
  · obtain ⟨next, hnext⟩ := hlast
    have hlt := measure_step_lt hnext
    exact (h.step hnext).exists_last
  · refine ⟨n, s, h, ?_⟩
    rw [← h.run_eq]
    exact step_eq_run (fun next hnext => hlast ⟨next, hnext⟩)
termination_by s.measure

end Reached

end Scan

/-- Each group contains the brackets of the one that is read in it, by bytes; `span` are the brackets of the
innermost one. -/
def Suspended.Contain (buffer : Text) : Span → List Suspended → Prop
  | _, [] => True
  | span, g :: outer =>
      (span.inBytes buffer).LiesIn (g.frame.range.inBytes buffer) ∧ Contain buffer g.frame.span outer

/-- Frames that lie around each other contain what lies in the innermost. -/
theorem Suspended.AreAround.contain {buffer : Text} {range span : Span} {outer : List Suspended}
    (h : AreAround buffer range span outer) : Contain buffer span outer := by
  induction outer generalizing range span with
  | nil => trivial
  | cons g outer ih =>
      obtain ⟨hg, houter⟩ := h
      exact ⟨⟨buffer.offset_mono hg.contains.1, buffer.offset_mono hg.contains.2⟩, ih houter⟩

/-- **The reading ends.**  In every state that is reached when a text is read, the byte index lies between
the mark and the end of the contents, and each open group contains the brackets of the one above it.  Every
step that leads to another state increases the index, so the state has at most as many steps behind it as
the text has bytes.  A last step is reached, and it returns what the reading returns. -/
theorem Reader.tree_steps (r : Reader) :
    (∀ n s, Scan.Reached r n s →
      r.buffer.offset s.mark ≤ r.buffer.offset s.position ∧
      r.buffer.offset s.position ≤ r.buffer.offset s.frame.range.stop ∧
      Suspended.Contain r.buffer s.frame.span s.outer ∧
      (∀ next, s.step r (Bracket.pairs r.buffer) = .ok (.inr next) →
        r.buffer.offset s.position < r.buffer.offset next.position) ∧
      n + 1 ≤ r.buffer.utf8Length + 1) ∧
    ∀ contents range, r.piece 0 0 r.buffer = .ok (.compound contents range) →
      ∃ n s, Scan.Reached r n s ∧ s.step r (Bracket.pairs r.buffer) = r.tree.map .inl := by
  constructor
  · intro n s h
    have hplaced := h.placed
    have hend := r.buffer.offset_mono hplaced.position_le_length
    rw [Text.offset_length] at hend
    exact ⟨r.buffer.offset_mono hplaced.mark_le, r.buffer.offset_mono hplaced.position_le,
      hplaced.around.contain, fun next hnext => h.offset_lt hnext,
      Nat.succ_le_succ (Nat.le_trans h.le_offset hend)⟩
  · intro contents range h
    exact (Scan.Reached.start h).exists_last

end InfixFormula

import InfixFormula.Bracket
import InfixFormula.Piece

/-!
# Reading with a stack of open groups

A formula text is read in one go from left to right.  The bracket pairs of the whole text are found
beforehand; a stack keeps the groups that are still open, each with the text that follows the bracket
pair being read inside it, so nesting never becomes recursion.

One step looks at one character of the innermost group, or leaves the group when its contents are used
up.  Characters of a name or literal are collected until an operator, a bracket or the end of the group
shows that the token is complete.  On an opening bracket the inside of the pair is looked at first: a
leaf is taken at once, anything else becomes the new innermost group.

The reading ends because every step leaves less text, or the same text on a shorter stack
(`measure_step_lt`).
-/

namespace InfixFormula

/-- A group whose contents are being read. -/
structure Frame where
  /-- The contents, without layout at the ends. -/
  range : Span
  /-- The contents with their brackets.  The whole formula has none, and `range` again. -/
  span : Span
  /-- The level of nesting. -/
  depth : Nat
  /-- What has been found so far, the latest first. -/
  items : List Item

/-- A group in which a bracket pair is being read. -/
structure Suspended where
  /-- The group. -/
  frame : Frame
  /-- The contents behind the bracket pair. -/
  rest : Text

/-- A state of the reading. -/
structure Scan where
  /-- The innermost open group. -/
  frame : Frame
  /-- The groups around it, from the inside out. -/
  outer : List Suspended
  /-- The position that has been reached. -/
  position : Nat
  /-- The contents of the innermost group from there on. -/
  rest : Text
  /-- The position behind the latest item. -/
  mark : Nat
  /-- The characters from `mark` to `position`, the latest first. -/
  pending : Text

namespace Scan

/-- The reading of a whole formula, before its first character. -/
def start (contents : Text) (range : Span) : Scan where
  frame := ⟨range, range, 0, []⟩
  outer := []
  position := range.start
  rest := contents
  mark := range.start
  pending := []

/-- The collected characters as an item of the group. -/
def flush (r : Reader) (s : Scan) : Except Error (List Item) :=
  match r.pendingItems (s.frame.depth + 1) s.mark s.pending.reverse with
  | .ok new => .ok (new ++ s.frame.items)
  | .error e => .error e

/-- The reading goes on in the innermost group, with its items complete up to `position`. -/
def resume (s : Scan) (items : List Item) (position : Nat) (rest : Text) : Scan where
  frame := { s.frame with items := items }
  outer := s.outer
  position := position
  rest := rest
  mark := position
  pending := []

/-- The reading goes on inside a bracket pair. -/
def enter (s : Scan) (items : List Item) (span range : Span) (contents after : Text) : Scan where
  frame := ⟨range, span, s.frame.depth + 1, []⟩
  outer := ⟨{ s.frame with items := items }, after⟩ :: s.outer
  position := range.start
  rest := contents
  mark := range.start
  pending := []

/-- The innermost group is complete and becomes an operand of the group around it. -/
def leave (s : Scan) (items : List Item) (r : Reader) : Except Error (Tree ⊕ Scan) :=
  match Chain.treeOf r.buffer s.frame.range.start items.reverse with
  | .error e => .error e
  | .ok tree =>
      match s.outer with
      | [] => .ok (.inl tree)
      | parent :: outer =>
          let position := s.frame.span.stop
          .ok (.inr
            { frame := { parent.frame with
                items := .operand ⟨tree, s.frame.span⟩ :: parent.frame.items }
              outer := outer
              position := position
              rest := parent.rest
              mark := position
              pending := [] })

/-- Reads the bracket pair that opens here and closes at `close`. -/
def openPair (s : Scan) (items : List Item) (r : Reader) (tail : Text) (close : Nat) :
    Except Error Scan :=
  let inside := tail.take (close - (s.position + 1))
  let after := tail.drop (close - s.position)
  let span : Span := ⟨s.position, close + 1⟩
  match r.piece (s.frame.depth + 1) (s.position + 1) inside with
  | .error e => .error e
  | .ok (.leaf o) => .ok (s.resume (.operand ⟨o.tree, span⟩ :: items) (close + 1) after)
  | .ok (.compound contents range) => .ok (s.enter items span range contents after)

/-- One step of the reading: a tree at the end of the formula, a further state before it. -/
def step (r : Reader) (pairs : List (Nat × Nat)) (s : Scan) : Except Error (Tree ⊕ Scan) :=
  match s.rest with
  | [] =>
      match s.flush r with
      | .error e => .error e
      | .ok items => s.leave items r
  | c :: tail =>
      if c = '(' then
        match s.flush r with
        | .error e => .error e
        | .ok items =>
            match pairs.lookup s.position with
            | none => .error (.malformed s.position .unmatchedOpening)
            | some close =>
                match s.openPair items r tail close with
                | .error e => .error e
                | .ok next => .ok (.inr next)
      else if c = ')' then .error (.malformed s.position .unmatchedClosing)
      else
        match Operator.ofChar? c with
        | some op =>
            match s.flush r with
            | .error e => .error e
            | .ok items =>
                .ok (.inr (s.resume (.operator op s.position :: items) (s.position + 1) tail))
        | none =>
            .ok (.inr { s with
              position := s.position + 1
              rest := tail
              pending := c :: s.pending })

section Steps

variable {r : Reader} {pairs : List (Nat × Nat)} {s : Scan} {tail : Text}

/-- At the end of a level, the operand that waits is finished and the level is left. -/
theorem step_end (h : s.rest = []) :
    s.step r pairs =
      match s.flush r with
      | .error e => .error e
      | .ok items => s.leave items r := by
  rw [step, h]

/-- An opening bracket finishes the operand before it, and the pair that the table has for it is opened.
-/
theorem step_opening (h : s.rest = '(' :: tail) :
    s.step r pairs =
      match s.flush r with
      | .error e => .error e
      | .ok items =>
          match pairs.lookup s.position with
          | none => .error (.malformed s.position .unmatchedOpening)
          | some close =>
              match s.openPair items r tail close with
              | .error e => .error e
              | .ok next => .ok (.inr next) := by
  simp only [step, h]
  rw [if_pos trivial]

/-- The scan meets a closing bracket only if it has no partner: it jumps over the others. -/
theorem step_closing (h : s.rest = ')' :: tail) :
    s.step r pairs = .error (.malformed s.position .unmatchedClosing) := by
  simp only [step, h]
  rw [if_neg (by decide), if_pos trivial]

/-- An operator finishes the operand before it and is put on top of the items. -/
theorem step_operator {op : Operator} (h : s.rest = op.symbol :: tail) :
    s.step r pairs =
      match s.flush r with
      | .error e => .error e
      | .ok items =>
          .ok (.inr (s.resume (.operator op s.position :: items) (s.position + 1) tail)) := by
  simp only [step, h, Operator.ofChar?_symbol]
  rw [if_neg (by cases op <;> decide), if_neg (by cases op <;> decide)]

/-- Every other character is put off until the operand is finished. -/
theorem step_other {c : Char} (h : s.rest = c :: tail) (hc : Literal.isDelimiter c = false) :
    s.step r pairs =
      .ok (.inr { s with
        position := s.position + 1
        rest := tail
        pending := c :: s.pending }) := by
  have hopen : c ≠ '(' := by
    rintro rfl
    cases hc
  have hclose : c ≠ ')' := by
    rintro rfl
    cases hc
  simp only [step, h, Operator.ofChar?_eq_none hc]
  rw [if_neg hopen, if_neg hclose]

/-- What a step does that leads to a further state: it leaves a group, reads a bracket pair or an operator, or
collects a character. -/
theorem next_cases {next : Scan} (h : s.step r pairs = .ok (.inr next)) :
    (∃ items, s.rest = [] ∧ s.leave items r = .ok (.inr next)) ∨
    (∃ tail items close, s.rest = '(' :: tail ∧ pairs.lookup s.position = some close ∧
      s.openPair items r tail close = .ok next) ∨
    (∃ op tail items, s.rest = Operator.symbol op :: tail ∧
      next = s.resume (.operator op s.position :: items) (s.position + 1) tail) ∨
    ∃ c tail, s.rest = c :: tail ∧ Literal.isDelimiter c = false ∧
      next = { s with
        position := s.position + 1
        rest := tail
        pending := c :: s.pending } := by
  cases hrest : s.rest with
  | nil =>
      rw [step_end hrest] at h
      split at h
      · cases h
      · exact .inl ⟨_, rfl, h⟩
  | cons c tail =>
      right
      rcases Literal.eq_bracket_or_symbol_or_other c with rfl | rfl | ⟨op, rfl⟩ | hc
      · rw [step_opening hrest] at h
        split at h
        · cases h
        · split at h
          · cases h
          · next hlookup =>
              split at h
              · cases h
              · next hpair =>
                  cases h
                  exact .inl ⟨_, _, _, rfl, hlookup, hpair⟩
      · rw [step_closing hrest] at h
        cases h
      · rw [step_operator hrest] at h
        split at h
        · cases h
        · cases h
          exact .inr (.inl ⟨_, _, _, rfl, rfl⟩)
      · rw [step_other hrest hc] at h
        cases h
        exact .inr (.inr ⟨_, _, rfl, hc, rfl⟩)

end Steps

/-- How much text is left, in the innermost group and in those around it. -/
def remaining (s : Scan) : Nat :=
  s.rest.length + s.outer.foldr (fun g n => g.rest.length + n) 0

/-- The text that is left counts twice, and every open group once. -/
def measure (s : Scan) : Nat := 2 * s.remaining + s.outer.length

/-- Leaving a level gets the scan nearer to its end. -/
theorem measure_leave_lt {r : Reader} {s next : Scan} {items : List Item}
    (h : s.leave items r = .ok (.inr next)) : next.measure < s.measure := by
  unfold leave at h
  split at h
  · cases h
  · split at h
    · cases h
    · next parent outer houter =>
        cases h
        simp only [measure, remaining, houter, List.foldr_cons, List.length_cons]
        omega

/-- Opening a pair gets the scan nearer to its end, since the bracket is behind it then. -/
theorem measure_openPair_lt {r : Reader} {s next : Scan} {items : List Item} {c : Char}
    {tail : Text} {close : Nat} (hrest : s.rest = c :: tail)
    (h : s.openPair items r tail close = .ok next) : next.measure < s.measure := by
  unfold openPair at h
  dsimp only at h
  split at h
  · cases h
  · cases h
    simp only [measure, remaining, resume, hrest, List.length_cons, List.length_drop]
    omega
  · next contents range hf =>
      cases h
      have hle := Reader.length_le_of_piece hf
      simp only [List.length_take] at hle
      simp only [measure, remaining, enter, hrest, List.foldr_cons, List.length_cons,
        List.length_drop]
      omega

/-- Every step leaves less text, or the same text on a shorter stack. -/
theorem measure_step_lt {r : Reader} {pairs : List (Nat × Nat)} {s next : Scan}
    (h : s.step r pairs = .ok (.inr next)) : next.measure < s.measure := by
  rcases next_cases h with ⟨items, -, hleave⟩ | ⟨tail, items, close, hrest, -, hpair⟩ |
    ⟨op, tail, items, hrest, rfl⟩ | ⟨c, tail, hrest, -, rfl⟩
  · exact measure_leave_lt hleave
  · exact measure_openPair_lt hrest hpair
  · simp only [measure, remaining, resume, hrest, List.length_cons]
    omega
  · simp only [measure, remaining, hrest, List.length_cons]
    omega

/-- Reads on to the end. -/
def run (r : Reader) (pairs : List (Nat × Nat)) (s : Scan) : Except Error Tree :=
  match _h : s.step r pairs with
  | .error e => .error e
  | .ok (.inl tree) => .ok tree
  | .ok (.inr next) => next.run r pairs
termination_by s.measure
decreasing_by exact measure_step_lt _h

end Scan

/-- The tree of the whole buffer. -/
def Reader.tree (r : Reader) : Except Error Tree :=
  match r.piece 0 0 r.buffer with
  | .error e => .error e
  | .ok (.leaf o) => .ok o.tree
  | .ok (.compound contents range) => (Scan.start contents range).run r (Bracket.pairs r.buffer)

end InfixFormula

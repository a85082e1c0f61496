import InfixFormula.Proofs.InOrder

/-!
# Byte offsets

A program that keeps its texts as bytes marks places by byte offsets.  Not every offset is a place: it may
lie inside a character or beyond the end.  The offsets that are places are those of the positions
(`positionAt?_eq_some_iff`), and further on in the text they are greater (`offset_lt`).

A stretch may only be cut out between two places of which the first is not behind the second.
`sliceBytes?` has nothing to give for any other two offsets (`sliceBytes?_eq_some_iff`).
-/

namespace InfixFormula

namespace Text

/-- How many bytes stand before the position. -/
def offset (t : Text) (position : Nat) : Nat := utf8Length (t.take position)

/-- The position that has the given number of bytes before it. -/
def positionAt? : Text → Nat → Option Nat
  | _, 0 => some 0
  | [], _ + 1 => none
  | c :: t, byte + 1 =>
      if c.utf8Size ≤ byte + 1 then (positionAt? t (byte + 1 - c.utf8Size)).map (· + 1) else none

end Text

/-- The span, counted in bytes of the text. -/
def Span.inBytes (t : Text) (s : Span) : Span := ⟨t.offset s.start, t.offset s.stop⟩

/-- The characters in a span that is counted in bytes.  There are none if an end lies inside a character or
beyond the end of the text, or if the span stops before it starts. -/
def Text.sliceBytes? (t : Text) (s : Span) : Option Text :=
  if s.stop < s.start then none
  else
    match t.positionAt? s.start, t.positionAt? s.stop with
    | some start, some stop => some (t.slice ⟨start, stop⟩)
    | _, _ => none

namespace Text

@[simp] theorem offset_zero (t : Text) : t.offset 0 = 0 := rfl

/-- A character moves what follows it by all its bytes. -/
@[simp] theorem offset_cons_succ (c : Char) (t : Text) (position : Nat) :
    offset (c :: t) (position + 1) = c.utf8Size + t.offset position := by
  simp [offset]

/-- Behind the last character lie all the bytes. -/
@[simp] theorem offset_length (t : Text) : t.offset t.length = t.utf8Length := by
  rw [offset, List.take_length]

/-- Later positions have later offsets. -/
theorem offset_mono (t : Text) {i j : Nat} (h : i ≤ j) : t.offset i ≤ t.offset j :=
  t.utf8Length_take_mono h

/-- Every character has a byte, so different positions have different offsets. -/
theorem offset_lt {t : Text} {i j : Nat} (h : i < j) (hi : i < t.length) :
    t.offset i < t.offset j := by
  have hnext : t.offset (i + 1) = t.offset i + t[i].utf8Size := by
    rw [offset, List.take_add_one, List.getElem?_eq_getElem hi, utf8Length_append]
    simp [offset]
  have hpos := t[i].utf8Size_pos
  have hle := t.offset_mono (Nat.succ_le_of_lt h)
  rw [Nat.succ_eq_add_one] at hle
  omega

theorem offset_append_length (t u : Text) : offset (t ++ u) t.length = t.utf8Length := by
  rw [offset, List.take_left]

/-- Offsets give back the order of their positions. -/
theorem le_of_offset_le {t : Text} {i j : Nat} (hi : i ≤ t.length) (h : t.offset i ≤ t.offset j) :
    i ≤ j := by
  rcases Nat.lt_or_ge j i with hlt | hle
  · have hoffset := offset_lt hlt (Nat.lt_of_lt_of_le hlt hi)
    omega
  · exact hle

/-- Two places of the text are the same if they have the same offset. -/
theorem offset_inj {t : Text} {i j : Nat} (hi : i ≤ t.length) (hj : j ≤ t.length)
    (h : t.offset i = t.offset j) : i = j :=
  Nat.le_antisymm (le_of_offset_le hi (Nat.le_of_eq h)) (le_of_offset_le hj (Nat.le_of_eq h.symm))

namespace OccursAt

variable {buffer t : Text} {start : Nat}

/-- A text that stands in the buffer takes up its bytes there. -/
theorem offset_add (h : buffer.OccursAt start t) :
    buffer.offset (start + t.length) = buffer.offset start + t.utf8Length := by
  obtain ⟨before, after, rfl, rfl⟩ := h
  have hlength : before.length + t.length = (before ++ t).length := List.length_append.symm
  rw [hlength, offset_append_length, List.append_assoc, offset_append_length, utf8Length_append]

end OccursAt

/-- A slice stands where it was cut from. -/
theorem occursAt_slice (t : Text) {s : Span} (h : s.start ≤ s.stop) (hstop : s.stop ≤ t.length) :
    t.OccursAt s.start (t.slice s) ∧ s.start + (t.slice s).length = s.stop := by
  have hlength : (t.take s.start).length = s.start := by
    rw [List.length_take, Nat.min_eq_left (Nat.le_trans h hstop)]
  refine ⟨⟨t.take s.start, t.drop s.stop, ?_, hlength⟩, ?_⟩
  · rw [slice, ← List.take_add, Nat.add_sub_cancel' h, List.take_append_drop]
  · rw [slice, List.length_take, List.length_drop]
    omega

/-- The places of a text are its positions. -/
theorem positionAt?_eq_some_iff {t : Text} {byte position : Nat} :
    t.positionAt? byte = some position ↔ position ≤ t.length ∧ t.offset position = byte := by
  induction t generalizing byte position with
  | nil =>
      cases byte with
      | zero => simp [positionAt?, offset, eq_comm]
      | succ byte => simp [positionAt?, offset]
  | cons c t ih =>
      have hpos := c.utf8Size_pos
      cases position with
      | zero =>
          cases byte with
          | zero => simp [positionAt?]
          | succ byte => simp [positionAt?]
      | succ position =>
          rw [offset_cons_succ, List.length_cons]
          cases byte with
          | zero =>
              simp [positionAt?]
              omega
          | succ byte =>
              rw [positionAt?]
              split
              · rw [Option.map_eq_some_iff]
                constructor
                · rintro ⟨p, hp, heq⟩
                  obtain rfl : p = position := by omega
                  obtain ⟨hle, hoffset⟩ := ih.mp hp
                  omega
                · rintro ⟨hle, hoffset⟩
                  exact ⟨position, ih.mpr ⟨by omega, by omega⟩, rfl⟩
              · simp only [reduceCtorEq, false_iff]
                omega

/-- What can be cut out by bytes is what stands in the text. -/
theorem sliceBytes?_eq_some_iff {t u : Text} {s : Span} :
    t.sliceBytes? s = some u ↔
      ∃ start, t.OccursAt start u ∧ s = Span.inBytes t ⟨start, start + u.length⟩ := by
  constructor
  · intro h
    unfold sliceBytes? at h
    split at h
    · cases h
    · next horder =>
        split at h
        · next i j hi hj =>
            obtain ⟨hi, hstart⟩ := positionAt?_eq_some_iff.mp hi
            obtain ⟨hj, hstop⟩ := positionAt?_eq_some_iff.mp hj
            have hle : i ≤ j := le_of_offset_le hi (by omega)
            cases h
            obtain ⟨hoccurs, hlength⟩ := t.occursAt_slice (s := ⟨i, j⟩) hle hj
            refine ⟨i, hoccurs, ?_⟩
            rw [hlength, Span.inBytes, hstart, hstop]
        · cases h
  · rintro ⟨start, h, rfl⟩
    have hlength := h.le_length
    have hstart : t.positionAt? (t.offset start) = some start :=
      positionAt?_eq_some_iff.mpr ⟨by omega, rfl⟩
    have hstop : t.positionAt? (t.offset (start + u.length)) = some (start + u.length) :=
      positionAt?_eq_some_iff.mpr ⟨hlength, rfl⟩
    have horder : ¬ t.offset (start + u.length) < t.offset start :=
      Nat.not_lt.mpr (t.offset_mono (Nat.le_add_right _ _))
    simp only [sliceBytes?, Span.inBytes, if_neg horder, hstart, hstop, h.slice]

/-- The offset 1 lies inside the first character. -/
example : Text.sliceBytes? ['毛', '+'] ⟨1, 3⟩ = none := by decide

/-- What stands in the buffer can be cut out by its bytes. -/
theorem OccursAt.sliceBytes? {buffer t : Text} {start : Nat} (h : buffer.OccursAt start t) :
    buffer.sliceBytes? (Span.inBytes buffer ⟨start, start + t.length⟩) = some t :=
  sliceBytes?_eq_some_iff.mpr ⟨start, h, rfl⟩

end Text

end InfixFormula

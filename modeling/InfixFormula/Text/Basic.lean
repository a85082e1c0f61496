/-!
# Texts and the places in them

A formula text is the list of its characters.  A *position* counts characters from the start of the
text, and a *span* is the stretch between two positions, its end excluded.

Main facts: the slice of a span never exceeds the span (`length_slice_le`), the slice of the full
span is the whole text (`slice_full`), and the size in bytes adds up over concatenation
(`utf8Length_append`).
-/

namespace InfixFormula

/-- A text, as the list of its characters. -/
abbrev Text := List Char

/-- The stretch of a text from position `start` up to, and without, position `stop`. -/
structure Span where
  /-- The position of the first character. -/
  start : Nat
  /-- The position after the last character. -/
  stop : Nat
  deriving DecidableEq

namespace Text

/-- The characters of `t` that lie in the span. -/
def slice (t : Text) (s : Span) : Text :=
  (t.drop s.start).take (s.stop - s.start)

/-- The span of the whole text. -/
def fullSpan (t : Text) : Span := ⟨0, t.length⟩

/-- The number of bytes that `t` takes in UTF-8. -/
def utf8Length (t : Text) : Nat :=
  t.foldl (fun n c => n + c.utf8Size) 0

/-- The text of a natural number in decimal. -/
def ofNat (n : Nat) : Text := Nat.toDigits 10 n

/-- A stretch is no longer than its span. -/
theorem length_slice_le (t : Text) (s : Span) :
    (t.slice s).length ≤ s.stop - s.start := by
  rw [slice, List.length_take]
  exact Nat.min_le_left _ _

/-- The full span covers the whole text. -/
@[simp] theorem slice_full (t : Text) : t.slice t.fullSpan = t := by
  simp [slice, fullSpan]

/-- Counting bytes may start from any number. -/
private theorem foldl_utf8Size (t : Text) (n : Nat) :
    t.foldl (fun n c => n + c.utf8Size) n = n + utf8Length t := by
  unfold utf8Length
  induction t generalizing n with
  | nil => rfl
  | cons c t ih =>
      rw [List.foldl_cons, List.foldl_cons, ih (n + c.utf8Size), ih (0 + c.utf8Size)]
      omega

@[simp] theorem utf8Length_nil : utf8Length [] = 0 := rfl

@[simp] theorem utf8Length_cons (c : Char) (t : Text) :
    utf8Length (c :: t) = c.utf8Size + utf8Length t := by
  rw [utf8Length, List.foldl_cons, foldl_utf8Size]
  omega

/-- The bytes of a text are those of its parts. -/
@[simp] theorem utf8Length_append (t u : Text) :
    utf8Length (t ++ u) = utf8Length t + utf8Length u := by
  induction t with
  | nil => simp
  | cons c t ih => rw [List.cons_append, utf8Length_cons, utf8Length_cons, ih]; omega

end Text

end InfixFormula

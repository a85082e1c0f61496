import InfixFormula.Text.Basic

/-!
# Sources

A source is a slice of a buffer: it remembers the whole text it was cut from and the span of the cut.
Two sources are the same for a reader if they show the same text, whatever their buffers
(`Source.same_iff`).
-/

namespace InfixFormula

/-- A slice of a text that is remembered with the text. -/
structure Source where
  /-- The text that the slice was cut from. -/
  buffer : Text
  /-- Where in the buffer it lies. -/
  span : Span
  deriving DecidableEq

namespace Source

/-- The text that the source shows. -/
def text (s : Source) : Text := s.buffer.slice s.span

/-- A source with a buffer of its own. -/
def ofText (t : Text) : Source := ⟨t, t.fullSpan⟩

/-- Whether two sources show the same text. -/
def same (s t : Source) : Bool := s.text == t.text

/-- Where the source lies in its buffer, counted in bytes of UTF-8. -/
def byteSpan (s : Source) : Span :=
  let start := Text.utf8Length (s.buffer.take s.span.start)
  ⟨start, start + s.text.utf8Length⟩

/-- A text of its own is the source of all of itself. -/
@[simp] theorem text_ofText (t : Text) : (ofText t).text = t := Text.slice_full t

/-- Sources are compared by what they show, wherever it was cut from. -/
theorem same_iff (s t : Source) : s.same t = true ↔ s.text = t.text := by
  simp [same]

end Source

end InfixFormula

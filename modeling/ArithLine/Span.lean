/-!
# Spans

A span is a range of bytes of a line's UTF-8 encoding, given by its two ends.
Nothing forces the ends of a stored span into order; `len` and `isEmpty` read a
reversed span as one of length zero.
-/

namespace ArithLine

/-- The bytes from `start` (included) to `stop` (excluded). -/
structure Span where
  start : Nat
  stop : Nat
  deriving DecidableEq, Repr, Inhabited

namespace Span

/-- The span of no bytes at the start of a line. -/
def zero : Span := ⟨0, 0⟩

/-- The number of bytes covered. -/
def len (s : Span) : Nat := s.stop - s.start

/-- Whether no byte is covered. -/
def isEmpty (s : Span) : Bool := s.stop ≤ s.start

theorem isEmpty_iff (s : Span) : s.isEmpty ↔ s.len = 0 := by
  simp only [isEmpty, len, decide_eq_true_eq]; omega

/-- The span from the start of `s` to the end of `t`. -/
def through (s t : Span) : Span := ⟨s.start, t.stop⟩

end Span

end ArithLine

import ArithLine.Meaning
import ArithLine.Tree.OfLine

/-!
# Failures

A line that gives no program fails for one of three reasons: it is refused, it
means nothing, or it could not be read at all. A failure knows its wording, its
code, and the place that a report points at.
-/

namespace ArithLine

/-- A line of text and the name under which reports mention it. -/
structure Source where
  name : String
  content : String
  deriving DecidableEq, Repr, Inhabited

namespace Source

/-- The source of a text that has no other name. -/
def input (content : String) : Source := ⟨"<input>", content⟩

/-- The source of a text given as an argument. -/
def argument (content : String) : Source := ⟨"<expr>", content⟩

/-- The source of a line read at a prompt. -/
def line (number : Nat) (content : String) : Source :=
  ⟨"<line:" ++ Numeral.ofNat number ++ ">", content⟩

end Source

/-- Why a line could not be read from a stream. -/
inductive StreamFault where
  /-- The bytes of the line are no text. -/
  | invalidText
  /-- The output took only a part of what was written. -/
  | fullOutput
  deriving DecidableEq, Repr, Inhabited

/-- Why there is no program. -/
inductive Failure where
  | rejected (source : Source) (cause : Rejection)
  | noProgram (source : Source) (cause : NoProgram)
  | stream (cause : StreamFault)
  deriving DecidableEq, Repr, Inhabited

/-- A remark on a part of a source. -/
structure Label where
  text : String
  offset : Nat
  length : Nat
  deriving DecidableEq, Repr, Inhabited

/-- The bytes that a label points at. -/
def Label.span (l : Label) : Span := ⟨l.offset, l.offset + l.length⟩

namespace Failure

/-- The wording of a failure. -/
def message : Failure → String
  | rejected _ r => r.message
  | noProgram _ n => "no program: `" ++ n.found ++ "` could not be converted to an expression"
  | stream .invalidText => "stream did not contain valid UTF-8"
  | stream .fullOutput => "failed to write whole buffer"

/-- The stable code of a failure. -/
def code : Failure → String
  | rejected .. => "varlang::syntax"
  | noProgram .. => "varlang::no_program"
  | stream .. => "varlang::io"

/-- Advice that goes with a failure. -/
def help? : Failure → Option String
  | noProgram .. => some "this construct is not supported by the reader yet"
  | _ => none

/-- The source that a failure is about. -/
def source? : Failure → Option Source
  | rejected s _ | noProgram s _ => some s
  | stream _ => none

/-- The place that a failure points at. -/
def label? : Failure → Option Label
  | rejected _ r => some ⟨"here", r.offset, 0⟩
  | noProgram _ n => some ⟨"unsupported", n.span.start, n.span.len⟩
  | stream _ => none

end Failure

end ArithLine

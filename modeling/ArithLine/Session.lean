import ArithLine.Reading

/-!
# Sessions

A session reads sources line by line from bytes, and writes a prompt before each
line. Output may be bounded: a prompt that does not fit is written as far as it
does, and then no line is read. A line whose bytes are no text is read and not
counted.
-/

namespace ArithLine

/-- Written text, and the bytes that may still be written, if they are bounded. -/
structure Sink where
  written : List Char := []
  room : Option Nat := none
  deriving DecidableEq, Repr, Inhabited

/-- Writes characters of one byte each as far as there is room, and says whether
all of them fitted. -/
def Sink.write (k : Sink) (cs : List Char) : Bool × Sink :=
  match k.room with
  | none => (true, { k with written := k.written ++ cs })
  | some n => (cs.length ≤ n, ⟨k.written ++ cs.take n, some (n - cs.length)⟩)

/-- The byte that ends a line. -/
def newline : UInt8 := 0x0A

/-- The first line of some bytes with its end, and the bytes after it. -/
def cutLine : List UInt8 → List UInt8 × List UInt8
  | [] => ([], [])
  | b :: bs =>
    if b = newline then ([b], bs)
    else (b :: (cutLine bs).1, (cutLine bs).2)

theorem cutLine_append (bs : List UInt8) : (cutLine bs).1 ++ (cutLine bs).2 = bs := by
  induction bs with
  | nil => rfl
  | cons b bs ih => unfold cutLine; split <;> simp [ih]

/-- All lines of some bytes, each with its end; the last may have none. -/
def physicalLines (bs : List UInt8) : List (List UInt8) :=
  bs.foldr (fun b ls =>
    if b = newline then [b] :: ls
    else
      match ls with
      | [] => [[b]]
      | l :: r => (b :: l) :: r) []

/-- The text that some bytes encode. -/
def textOfBytes? (bs : List UInt8) : Option String := String.fromUTF8? ⟨bs.toArray⟩

/-- A text without the line ends after it. -/
def stripLineEnd (s : String) : String :=
  .ofList (s.toList.reverse.dropWhile fun c => c == '\n' || c == '\r').reverse

/-- A line with its end as a source with a number, if its bytes are text. -/
def Source.ofBytes? (number : Nat) (line : List UInt8) : Option Source :=
  (textOfBytes? line).map fun x => .line number (stripLineEnd x)

/-- A session: the bytes to come, the lines counted so far, and the output. -/
structure Session where
  input : List UInt8
  lineNumber : Nat := 0
  sink : Sink := {}
  deriving DecidableEq, Repr, Inhabited

namespace Session

/-- What is written before a line is read. -/
def prompt : List Char := ['$', ' ']

/-- Prompts and reads the next line. There is none at the end of the input. -/
def nextSource (s : Session) : Except Failure (Option Source) × Session :=
  match s.sink.write prompt with
  | (false, k) => (.error (.stream .fullOutput), { s with sink := k })
  | (true, k) =>
    match cutLine s.input with
    | ([], _) => (.ok none, { s with sink := k })
    | (line, rest) =>
      let n := s.lineNumber + 1
      match Source.ofBytes? n line with
      | none => (.error (.stream .invalidText), { s with input := rest, sink := k })
      | some src => (.ok (some src), ⟨rest, n, k⟩)

/-- Prompts, reads the next line and its program, and reports its diagnostics. -/
def read (s : Session) (j : Journal) : Except Failure (Option Program) × Session × Journal :=
  match s.nextSource with
  | (.error f, s') => (.error f, s', j)
  | (.ok none, s') => (.ok none, s', j)
  | (.ok (some src), s') =>
    let (program, j') := src.read j
    (program.map some, s', j')

end Session

end ArithLine

import ArithLine.Lexeme
import ArithLine.Text.Width

/-!
# Snippets

A report quotes the line that it points at, with one line before it and one
after. Which lines these are is counted by all three line ends; in what is
quoted, a carriage return alone does not end a line.
-/

namespace ArithLine.Snippet

/-- A line of a text and the characters that end it. -/
structure Line where
  text : List Char
  ending : List Char := []
  deriving DecidableEq, Repr, Inhabited

namespace Line

/-- The number of bytes of a line with its end. -/
def size (l : Line) : Nat := byteLength l.text + byteLength l.ending

/-- Whether characters end the line. -/
def isEnded (l : Line) : Bool := !l.ending.isEmpty

/-- Whether the last character of the line is a carriage return that does not end
it. -/
def endsInReturn (l : Line) : Bool := !l.isEnded && l.text.getLast? == some '\r'

end Line

/-- Puts a character before some lines. A carriage return that no line feed
follows ends a line only if `alone` is set. -/
def attach (alone : Bool) (c : Char) (ls : List Line) : List Line :=
  if c = '\n' then ⟨[], [c]⟩ :: ls
  else
    match ls with
    | l :: r =>
      if c = '\r' ∧ l = ⟨[], ['\n']⟩ then ⟨[], [c, '\n']⟩ :: r
      else if c = '\r' ∧ alone then ⟨[], [c]⟩ :: ls
      else { l with text := c :: l.text } :: r
    | [] => if c = '\r' ∧ alone then [⟨[], [c]⟩] else [⟨[c], []⟩]

/-- The lines of a text. -/
def lines (alone : Bool) (cs : List Char) : List Line := cs.foldr (attach alone) []

/-! ## What is quoted -/

/-- The lines that a span touches with one line before them and one after: how many
lines and bytes come before these, and their text. -/
structure Window where
  skipped : Nat
  start : Nat
  text : List Char
  deriving DecidableEq, Repr, Inhabited

/-- The number of lines that end before byte `offset`, the first of them starting at
byte `start`. -/
def countBefore (offset start : Nat) : List Line → Nat
  | [] => 0
  | l :: ls =>
    if l.isEnded && start + l.size ≤ offset then countBefore offset (start + l.size) ls + 1
    else 0

/-- The text of some lines with their ends. -/
def join (ls : List Line) : List Char := ls.flatMap fun l => l.text ++ l.ending

/-- The window of a span in a text. -/
def window (span : Span) (cs : List Char) : Window :=
  let ls := lines true cs
  let skipped := countBefore span.start 0 ls - 1
  let through := countBefore (max span.start (span.stop - 1)) 0 ls
  { skipped
    start := byteLength (join (ls.take skipped))
    text := join ((ls.take (through + 2)).drop skipped) }

/-- A line with its number and the byte at which it starts. -/
structure Quoted where
  number : Nat
  start : Nat
  line : Line
  /-- Whether the end of the text belongs to the line. -/
  isLast : Bool
  deriving DecidableEq, Repr, Inhabited

/-- The lines of a window with their numbers. A last line that ends in a carriage
return alone has the number of the line before it. -/
def place (number start : Nat) : List Line → List Quoted
  | [] => []
  | [l] =>
    [⟨if l.endsInReturn then number - 1 else number, start, l, l.isEnded || l.endsInReturn⟩]
  | l :: ls => ⟨number, start, l, false⟩ :: place (number + 1) (start + l.size) ls

/-- The lines that a window quotes. -/
def Window.quoted (w : Window) : List Quoted :=
  place (w.skipped + 1) w.start (lines false w.text)

/-! ## Where a span lies -/

/-- The characters of a text that start before byte `offset`, the first of them at
byte `start`. -/
def before (offset start : Nat) : List Char → List Char
  | [] => []
  | c :: cs => if offset ≤ start then [] else c :: before offset (start + c.utf8Size) cs

/-- The number of columns before byte `offset` of a line. Beyond the end of the line,
each character counts by itself. -/
def columns (offset : Nat) (cs : List Char) : Nat :=
  if offset ≤ byteLength cs then Width.ofText (before offset 0 cs)
  else cs.foldr (fun c n => Width.alone c + n) 0

/-- Where a span lies in a quoted line. -/
inductive Place where
  | inside (first last : Nat)
  | starts (first : Nat)
  | ends (last : Nat)
  deriving DecidableEq, Repr, Inhabited

/-- The columns of a span in a quoted line, counted from one. -/
def place? (span : Span) (q : Quoted) : Option Place :=
  let textStop := q.start + byteLength q.line.text
  let first := columns (span.start - q.start) q.line.text + 1
  let last := columns (span.stop - q.start) q.line.text
  let startsHere := q.start ≤ span.start
  let endsHere := q.isLast || span.stop ≤ textStop
  if startsHere && endsHere then some (.inside first (if span.isEmpty then first else last))
  else if startsHere && span.start ≤ textStop then some (.starts first)
  else if endsHere && q.start ≤ span.stop then some (.ends last)
  else none

end ArithLine.Snippet

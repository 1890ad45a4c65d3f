import ArithLine.Reading

/-!
# Log events

What the log can tell about the reading of a line: that a tree was made, that a
node was visited, that a diagnostic was reported. An event is kept or dropped by
its severity alone.
-/

namespace ArithLine

/-- How much an event matters, the most severe first. -/
inductive Severity where
  | error
  | warn
  | info
  | debug
  | trace
  deriving DecidableEq, Repr, Inhabited

namespace Severity

/-- The position of a severity, zero for the most severe. -/
def rank : Severity → Nat
  | error => 0
  | warn => 1
  | info => 2
  | debug => 3
  | trace => 4

/-- The name of a severity. -/
def name : Severity → String
  | error => "ERROR"
  | warn => "WARN"
  | info => "INFO"
  | debug => "DEBUG"
  | trace => "TRACE"

/-- All severities. -/
def all : List Severity := [error, warn, info, debug, trace]

/-- The severity with a given name. -/
def ofName? (s : String) : Option Severity := all.find? (·.name == s)

theorem ofName?_name (s : Severity) : ofName? s.name = some s := by cases s <;> decide

end Severity

/-- An entry of the log: a message and named values. -/
structure Event where
  severity : Severity
  message : String
  fields : List (String × String) := []
  deriving DecidableEq, Repr, Inhabited

namespace Event

/-- The event of a diagnostic. -/
def ofDiagnostic (d : Diagnostic) : Event :=
  ⟨.warn, d.message,
    [("start", Numeral.ofNat d.span.start), ("end", Numeral.ofNat d.span.stop)]⟩

/-- The event of a note. -/
def ofNote : Note → Event
  | .visited r n => ⟨.trace, "visit rule", [("rule", r.name), ("children", Numeral.ofNat n)]⟩
  | .reported d => ofDiagnostic d

/-- The event of a finished tree. -/
def ofTree (t : Tree) : Event := ⟨.debug, "parse tree", [("tree", t.dump)]⟩

/-- The events that are at least as severe as `threshold`. -/
def atLeast (threshold : Severity) (es : List Event) : List Event :=
  es.filter fun e => e.severity.rank ≤ threshold.rank

/-- Whether a terminal may take a character for a command: escape, bell,
backspace, form feed, delete. -/
def isCommand (c : Char) : Bool := ['\x1b', '\x07', '\x08', '\x0c', '\x7f'].contains c

/-- A character of a logged message. One that could steer a terminal is given by
its code point. -/
def disarm (c : Char) : List Char :=
  let n := c.toNat
  if isCommand c then ['\\', 'x', Nat.digitChar (n / 16), Nat.digitChar (n % 16)]
  else if 0x80 ≤ n && n < 0xA0 then '\\' :: 'u' :: '\x7b' :: (Nat.toDigits 16 n ++ ['\x7d'])
  else [c]

/-- An event as one line of a log. -/
def line (e : Event) : String :=
  .ofList (List.replicate (5 - e.severity.name.length) ' ') ++ e.severity.name ++ " " ++
    " ".intercalate (.ofList (e.message.toList.flatMap disarm) ::
      e.fields.map fun f => f.1 ++ "=" ++ f.2) ++ "\n"

end Event

/-- The events of a whole tree's conversion. -/
def Tree.programEvents (t : Tree) : List Event := t.programNotes.map .ofNote

/-- The events of reading a source. A source that is refused has none. -/
def Source.events (s : Source) : List Event :=
  match s.tree with
  | .ok t => .ofTree t :: t.programEvents
  | .error _ => []

end ArithLine

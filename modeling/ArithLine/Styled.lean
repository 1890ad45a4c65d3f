import ArithLine.Expr.Format
import ArithLine.Meaning

/-!
# Styled output

Output is a list of segments: text, a change of style, or the end of one. A
terminal gets an escape for each change, anything else gets the text alone.
Trees, diagnostics and programs each have a style of their own.
-/

namespace ArithLine

/-- A colour of the foreground. -/
inductive Colour where
  | cyan
  | yellow
  | green
  deriving DecidableEq, Repr, Inhabited

/-- The number of a colour in an escape. -/
def Colour.code : Colour → String
  | cyan => "36"
  | yellow => "33"
  | green => "32"

/-- How text looks. -/
structure Style where
  colour : Colour
  bold : Bool := false
  deriving DecidableEq, Repr, Inhabited

/-- A part of styled output. -/
inductive Segment where
  | text (s : String)
  /-- What follows looks like this. -/
  | paint (style : Style)
  /-- What follows looks plain. -/
  | reset
  deriving DecidableEq, Repr, Inhabited

namespace Segment

/-- The escape that sets an attribute. -/
def sequence (code : String) : String := "\x1b[" ++ code ++ "m"

/-- A segment for a terminal. A new style starts from a plain one. -/
def escaped : Segment → String
  | text s => s
  | paint st => sequence "0" ++ (if st.bold then sequence "1" else "") ++ sequence st.colour.code
  | reset => sequence "0"

/-- A segment without its style. -/
def plain : Segment → String
  | text s => s
  | paint _ | reset => ""

/-- The text of some segments, with or without escapes. -/
def render (coloured : Bool) (ss : List Segment) : String :=
  String.join (ss.map (if coloured then escaped else plain))

end Segment

/-- A line that shows a tree. -/
def Tree.segments (t : Tree) : List Segment :=
  [.paint ⟨.cyan, false⟩, .text "parse tree:", .reset, .text (" " ++ t.dump ++ "\n")]

/-- A line that shows a diagnostic. -/
def Diagnostic.segments (d : Diagnostic) : List Segment :=
  [.paint ⟨.yellow, true⟩, .text "warning", .reset,
    .text (" [at " ++ Numeral.ofNat d.span.start ++ "-" ++ Numeral.ofNat d.span.stop ++ "]: " ++
      d.message ++ "\n")]

/-- The lines that show a program. -/
def Program.segments (p : Program) (f : Format) : List Segment :=
  [.paint ⟨.green, true⟩, .text (p.format f ++ "\n"), .reset]

end ArithLine

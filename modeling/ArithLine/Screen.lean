import ArithLine.Presentation
import ArithLine.Walk

/-!
# Printing on a screen

What a line comes to is printed as it comes: its tree, then the diagnostics of its conversion, then
its program. A line may fail after some of that is printed. A screen is anything that takes text,
the start of a style and the end of one, with colours or without. Whoever prints passes it on and
never looks at it.
-/

namespace ArithLine

/-- Something to print on. -/
structure Screen (σ : Type) where
  /-- Shows a text. -/
  write : String → σ → σ
  /-- What follows looks like this. -/
  paint : Style → σ → σ
  /-- What follows looks plain. -/
  reset : σ → σ

variable {σ : Type}

namespace Screen

/-- A screen that shows colours takes an escape for each change of style. -/
def coloured : Screen String where
  write x out := out ++ x
  paint st out := out ++ (Segment.paint st).escaped
  reset out := out ++ Segment.reset.escaped

/-- A screen without colours takes the text alone. -/
def monochrome : Screen String where
  write x out := out ++ x
  paint _ out := out
  reset out := out

end Screen

/-- Prints a tree on a line of its own; the label is in colour. -/
def Tree.printOn (k : Screen σ) (t : Tree) (out : σ) : σ :=
  let out := k.paint ⟨.cyan, false⟩ out
  let out := k.write "parse tree:" out
  let out := k.reset out
  k.write (" " ++ t.dump ++ "\n") out

/-- Prints a diagnostic on a line of its own; its first word is in colour. -/
def Diagnostic.printOn (k : Screen σ) (d : Diagnostic) (out : σ) : σ :=
  let out := k.paint ⟨.yellow, true⟩ out
  let out := k.write "warning" out
  let out := k.reset out
  k.write (" [at " ++ Numeral.ofNat d.span.start ++ "-" ++ Numeral.ofNat d.span.stop ++ "]: " ++
    d.message ++ "\n") out

/-- Prints what a journal has, the oldest first. -/
def Journal.printOn (k : Screen σ) (j : Journal) (out : σ) : σ :=
  j.entries.foldl (fun out d => d.printOn k out) out

/-- Prints a program; all of it is in colour, and the end of its line too. -/
def Program.printOn (k : Screen σ) (f : Format) (p : Program) (out : σ) : σ :=
  let out := k.paint ⟨.green, true⟩ out
  let out := k.write (p.format f ++ "\n") out
  k.reset out

namespace Source

/-- Builds the program of a tree. Its diagnostics are printed, or they go into the log. -/
def buildOn (k : Screen σ) (src : Source) (m : DiagnosticMode) (t : Tree) (out : σ) :
    Except Failure Program × σ :=
  match m with
  | .print =>
    let (r, j) := src.build .journal t {}
    (r, j.printOn k out)
  | .log => ((src.build .log t []).1, out)

/-- Reads a source and prints what comes of it, as far as it comes. -/
def printOn (k : Screen σ) (src : Source) (o : Options) (out : σ) : Except Failure Unit × σ :=
  match src.tree with
  | .error f => (.error f, out)
  | .ok t =>
    let out := if o.tree then t.printOn k out else out
    match src.buildOn k o.diagnostics t out with
    | (.ok p, out) => (.ok (), p.printOn k o.format out)
    | (.error f, out) => (.error f, out)

end Source

end ArithLine

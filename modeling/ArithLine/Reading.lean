import ArithLine.Failure

/-!
# Reading a source

From a source to its tree, its program and its diagnostics. A source that is
refused has neither a tree nor a diagnostic.
-/

namespace ArithLine

/-- The program of a source's tree. -/
def Source.programOf (s : Source) (t : Tree) : Except Failure Program :=
  t.program.mapError (.noProgram s)

namespace Source

/-- The tree of a source. -/
def tree (s : Source) : Except Failure Tree := (Tree.ofLine s.content).mapError (.rejected s)

/-- The program of a source. -/
def program (s : Source) : Except Failure Program := s.tree.bind s.programOf

/-- The diagnostics of a source. -/
def diagnostics (s : Source) : List Diagnostic :=
  match s.tree with
  | .ok t => t.programDiagnostics
  | .error _ => []

/-- Reads the program of a source and reports its diagnostics. -/
def read (s : Source) (j : Journal) : Except Failure Program × Journal :=
  (s.program, j.reportAll s.diagnostics)

end Source

end ArithLine

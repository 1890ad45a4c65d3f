import ArithLine.Tree.Basic

/-!
# Diagnostics

A diagnostic says what part of a tree could not be turned into an expression. It
never stops a conversion. A `Journal` collects the diagnostics of several
conversions in order.
-/

namespace ArithLine

/-- A part of a tree that has no meaning. -/
inductive Diagnostic where
  /-- A node whose rule has no meaning here. -/
  | unhandledRule (rule : Rule) (span : Span)
  /-- A token that is no number in range. -/
  | illegalTerminal (text : String) (span : Span)
  /-- A word that is no operand. -/
  | badWord (text : String) (span : Span)
  deriving DecidableEq, Repr, Inhabited

namespace Diagnostic

/-- The bytes that a diagnostic is about. -/
def span : Diagnostic → Span
  | unhandledRule _ s | illegalTerminal _ s | badWord _ s => s

/-- The wording of a diagnostic. -/
def message : Diagnostic → String
  | unhandledRule r _ =>
    "conversion error (from parse tree to AST): found unknown/unhandled case " ++ r.name
  | illegalTerminal s _ => "illegal terminal " ++ s
  | badWord s _ => "parser error node: " ++ s

end Diagnostic

/-- The diagnostics that have been reported and not been taken out, oldest first. -/
structure Journal where
  entries : List Diagnostic := []
  deriving DecidableEq, Repr, Inhabited

namespace Journal

/-- Adds a diagnostic. -/
def report (j : Journal) (d : Diagnostic) : Journal := ⟨j.entries ++ [d]⟩

/-- Adds some diagnostics in order. -/
def reportAll (j : Journal) (ds : List Diagnostic) : Journal := ⟨j.entries ++ ds⟩

/-- Takes all diagnostics out. -/
def drain (j : Journal) : List Diagnostic × Journal := (j.entries, {})

/-- The number of diagnostics. -/
def size (j : Journal) : Nat := j.entries.length

/-- Whether no diagnostic is waiting. -/
def isEmpty (j : Journal) : Bool := j.entries.isEmpty

end Journal

end ArithLine

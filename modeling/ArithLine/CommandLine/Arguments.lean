import ArithLine.CommandLine.Options

/-!
# Arguments

`Options.ofArguments` reads a command line from left to right and stops at the
first problem, or where help or the version is asked for.

An option that stands apart from its value is `waiting`: its value is the next
argument that is no option, and it is looked at only once something else is
accepted after it. So an argument that nothing accepts is reported before a bad
value that waits in front of it.
-/

namespace ArithLine

namespace CommandLine

/-- Why reading a command line stops before its end. -/
inductive Halt where
  | unknownArgument
  | invalidValue
  | argumentConflict
  | tooManyValues
  | help (long : Bool)
  | version
  deriving DecidableEq, Repr, Inhabited

/-- An option that stands alone. -/
inductive Flag where
  | tree
  | verbose
  | help
  | version
  deriving DecidableEq, Repr, Inhabited

/-- An option that needs a value. -/
inductive Setting where
  | format
  | diagnostics
  deriving DecidableEq, Repr, Inhabited

/-- The option of a long name. -/
def ofLong? : String → Option (Flag ⊕ Setting)
  | "tree" => some (.inl .tree)
  | "verbose" => some (.inl .verbose)
  | "help" => some (.inl .help)
  | "version" => some (.inl .version)
  | "format" => some (.inr .format)
  | "diagnostics" => some (.inr .diagnostics)
  | _ => none

/-- The option of a letter. -/
def ofShort? : Char → Option Flag
  | 'v' => some .verbose
  | 'h' => some .help
  | 'V' => some .version
  | _ => none

/-- An argument by its form. -/
inductive Argument where
  /-- Two dashes and a name, and what follows the first equals sign. -/
  | long (name : String) (value : Option String)
  /-- A dash and some letters. -/
  | short (letters : List Char)
  /-- Two dashes alone: no argument after them is an option. -/
  | separator
  | plain
  deriving DecidableEq, Repr, Inhabited

/-- The form of an argument. A dash alone is plain. -/
def Argument.ofChars : List Char → Argument
  | ['-', '-'] => separator
  | '-' :: '-' :: r =>
    long (.ofList (r.takeWhile (· != '=')))
      (match r.dropWhile (· != '=') with
        | _ :: v => some (.ofList v)
        | [] => none)
  | '-' :: c :: r => short (c :: r)
  | _ => plain

/-- What has been read of a command line. -/
structure Choices where
  expr : Option String := none
  tree : Bool := false
  format : Option Format := none
  diagnostics : Option DiagnosticMode := none
  verbosity : Nat := 0
  /-- A setting whose value has not been looked at, and the value if it came. -/
  waiting : Option (Setting × Option String) := none
  /-- Whether the separator has been read. -/
  separated : Bool := false
  deriving DecidableEq, Repr, Inhabited

namespace Choices

/-- Stores a value once: a second value is a conflict, whatever it is. -/
def store {α : Type} (old : Option α) (new : Option α) : Except Halt α :=
  match old, new with
  | some _, _ => .error .argumentConflict
  | none, some a => .ok a
  | none, none => .error .invalidValue

/-- Sets a setting. -/
def set (c : Choices) (s : Setting) (value : String) : Except Halt Choices :=
  match s with
  | .format => do return { c with format := some (← store c.format (Format.ofValue? value)) }
  | .diagnostics => do
    return { c with
      diagnostics := some (← store c.diagnostics (DiagnosticMode.ofValue? value)) }

/-- Looks at the value that waits. -/
def settle (c : Choices) : Except Halt Choices :=
  match c.waiting with
  | none => .ok c
  | some (_, none) => .error .invalidValue
  | some (s, some v) => set { c with waiting := none } s v

/-- Takes in a flag; `long` tells which help is meant. -/
def raise (long : Bool) (c : Choices) (f : Flag) : Except Halt Choices := do
  let c ← c.settle
  match f with
  | .tree => if c.tree then .error .argumentConflict else .ok { c with tree := true }
  | .verbose => .ok { c with verbosity := min 255 (c.verbosity + 1) }
  | .help => .error (.help long)
  | .version => .error .version

/-- Takes in a letter after a dash. -/
def letter (c : Choices) (l : Char) : Except Halt Choices :=
  match ofShort? l with
  | some f => raise false c f
  | none => .error .unknownArgument

/-- Takes in an expression. There may be only one. -/
def positional (c : Choices) (a : String) : Except Halt Choices :=
  if c.expr.isSome then .error .unknownArgument
  else do return { ← c.settle with expr := some a }

/-- Takes in an option by its long name. -/
def option (c : Choices) (name : String) (value : Option String) : Except Halt Choices :=
  match ofLong? name, value with
  | none, _ => .error .unknownArgument
  | some (.inl f), none => raise true c f
  | some (.inl _), some _ => .error .tooManyValues
  | some (.inr s), some v => do (← c.settle).set s v
  | some (.inr s), none => do return { ← c.settle with waiting := some (s, none) }

/-- Takes in an argument. -/
def step (c : Choices) (a : String) : Except Halt Choices :=
  if c.separated then positional c a
  else
    match Argument.ofChars a.toList with
    | .separator => .ok { c with separated := true }
    | .long n v => option c n v
    | .short ls => ls.foldlM letter c
    | .plain =>
      match c.waiting with
      | some (s, none) => .ok { c with waiting := some (s, some a) }
      | _ => positional c a

/-- The options of choices that are all made. -/
def options (c : Choices) : Options where
  expr := c.expr
  tree := c.tree
  format := c.format.getD .inline
  diagnostics := c.diagnostics.getD .print
  verbosity := c.verbosity

end Choices

end CommandLine

open CommandLine in
/-- The options of a command line. -/
def Options.ofArguments (args : List String) : Except Halt Options := do
  let c ← args.foldlM Choices.step {}
  return (← c.settle).options

end ArithLine

import ArithLine.Expected
import ArithLine.Tree.Basic

/-!
# Unfinished trees

A line is read from left to right, one token at a time. What has been read so
far is an `Unfinished` tree: what is wanted next, the chains that may still
grow, and a stack of the forms that are open. `Unfinished.step` takes in one
token or refuses it, `Unfinished.finish?` closes the tree at the end of the
line, and `Unfinished.expected` lists what could come next.

A chain joins operands by one operator only; sums may hold products, and
anything else needs parentheses. So a token decides at once what it belongs to,
and no token is looked at twice.
-/

namespace ArithLine

/-- A token as a leaf. -/
def Token.leaf (t : Token) : Tree := .token t.text t.span

/-- A word or signed numeral as an operand. -/
def Token.operand (t : Token) : Tree :=
  match t.lexeme with
  | .word w =>
    match Word.classify w with
    | .numeral => .spanning .numeral [t.leaf]
    | .name => .spanning .var [t.leaf]
    | .unknown => .bad t.text t.span
  | _ => .spanning .numeral [t.leaf]

/-- A chain that ends in an operator. -/
structure OpenChain where
  op : Op
  /-- The children so far, the last one first. -/
  before : List Tree
  /-- The number of operands so far. -/
  operands : Nat

namespace OpenChain

/-- Adds an operand and the operator that follows it, which must be the chain's
own. -/
def extend? (c : Option OpenChain) (operand : List Tree) (o : Op) (leaf : Tree) :
    Option OpenChain :=
  match c with
  | none => some ⟨o, leaf :: operand.reverse, 1⟩
  | some c =>
    if c.op = o then some ⟨o, leaf :: (operand.reverse ++ c.before), c.operands + 1⟩ else none

/-- The node of a chain with its last operand. A chain of just two operands also
covers the blanks that follow it, up to the byte `next` where something else
stands. -/
def close (c : OpenChain) (operand : List Tree) (next : Nat) : Tree :=
  let children := c.before.reverse ++ operand
  let e := Tree.extent children
  .node (.chain c.op) children (if c.operands = 1 then ⟨e.start, next⟩ else e)

end OpenChain

/-- The chains of an expression that may still grow. -/
structure Level where
  sum : Option OpenChain := none
  product : Option OpenChain := none

namespace Level

/-- Whether no operand of the expression is complete. -/
def isFresh (l : Level) : Bool := l.sum.isNone && l.product.isNone

/-- The operand of a sum that ends before byte `next`. -/
def closeProduct (l : Level) (operand : List Tree) (next : Nat) : List Tree :=
  match l.product with
  | none => operand
  | some c => [c.close operand next]

/-- The node of an expression that ends before byte `next`. -/
def close (l : Level) (operand : List Tree) (next : Nat) : Tree :=
  let last := l.closeProduct operand next
  .spanning .expr (match l.sum with
    | none => last
    | some c => [c.close last next])

/-- Takes in an operator after an operand. -/
def operator? (l : Level) (operand : List Tree) (o : Op) (t : Token) : Option Level :=
  if o.isTight then
    (OpenChain.extend? l.product operand o t.leaf).map fun c => { l with product := some c }
  else
    (OpenChain.extend? l.sum (l.closeProduct operand t.start) o t.leaf).map fun c =>
      { sum := some c }

/-- The operators that may follow an operand. -/
def operators (l : Level) : List Op :=
  (match l.sum with
    | none => [.add, .sub]
    | some c => [c.op]) ++
  match l.product with
  | none => [.mul, .div]
  | some c => [c.op]

end Level

/-- A let form that is not closed yet. -/
structure OpenLet where
  /-- The expression in which the let form stands. -/
  outer : Level
  /-- The children so far, the last one first. -/
  before : List Tree

/-- Adds a child. -/
def OpenLet.push (f : OpenLet) (t : Tree) : OpenLet := { f with before := t :: f.before }

/-- A form that waits for the expression inside it to end. -/
inductive Frame where
  /-- Parentheses around an operand. -/
  | group (outer : Level) (opening : Tree)
  /-- A binding of a let form. -/
  | binding (form : OpenLet)
  /-- The body of a let form. -/
  | body (form : OpenLet)

/-- What has been read of a line, by what is wanted next. -/
inductive Unfinished where
  /-- The first token after a parenthesis that stands for an operand. -/
  | opened (stack : List Frame) (outer : Level) (opening : Tree)
  /-- An operand. -/
  | operand (stack : List Frame) (level : Level)
  /-- An operator or the end of an expression. -/
  | ended (stack : List Frame) (level : Level) (operand : List Tree)
  /-- What follows a parenthesis and the reserved word: bindings, or whatever
  may follow an unknown word. -/
  | reserved (stack : List Frame) (outer : Level) (opening : Tree) (word : Token)
  /-- A binding of a let form, or the end of its bindings if it has some. -/
  | bindings (stack : List Frame) (form : OpenLet) (hasSome : Bool)
  /-- The name that a binding binds. -/
  | name (stack : List Frame) (form : OpenLet)

namespace Unfinished

/-- Nothing has been read. -/
def start : Unfinished := operand [] {}

/-- Takes in a token where an operand is wanted. -/
def stepOperand (stack : List Frame) (level : Level) (t : Token) : Option Unfinished :=
  match t.lexeme with
  | .glyph .opening => some (opened stack level t.leaf)
  | .glyph _ => none
  | .word _ | .signed _ => some (ended stack level [t.operand])

/-- Takes in a closing parenthesis after the expression `e`. -/
def stepClosing (stack : List Frame) (e closing : Tree) : Option Unfinished :=
  match stack with
  | [] => none
  | .group outer opening :: s => some (ended s outer [opening, e, closing])
  | .binding f :: s => some (bindings s ((f.push e).push closing) true)
  | .body f :: s =>
    some (ended s f.outer [.spanning .letForm ((f.push e).push closing).before.reverse])

/-- Takes in a token after an operand. The minus of a signed numeral is an
operator here. -/
def stepEnded (stack : List Frame) (level : Level) (operand : List Tree) (t : Token) :
    Option Unfinished :=
  match t.lexeme with
  | .glyph .opening | .word _ => none
  | .glyph .closing => stepClosing stack (level.close operand t.start) t.leaf
  | .glyph (.op o) => (level.operator? operand o t).map (Unfinished.operand stack)
  | .signed ds =>
    (level.operator? operand .sub ⟨.glyph (.op .sub), t.start⟩).map fun l =>
      ended stack l [Token.operand ⟨.word ds, t.start + 1⟩]

/-- Takes in a token, or refuses one that cannot stand here. -/
def step (u : Unfinished) (t : Token) : Option Unfinished :=
  match u with
  | opened s outer o =>
    if t.lexeme = .word Word.reserved then some (reserved s outer o t)
    else stepOperand (.group outer o :: s) {} t
  | operand s l => stepOperand s l t
  | ended s l ts => stepEnded s l ts t
  | reserved s outer o w =>
    if t.lexeme = .glyph .opening then some (bindings s ⟨outer, [t.leaf, w.leaf, o]⟩ false)
    else stepEnded (.group outer o :: s) {} [w.operand] t
  | bindings s f hasSome =>
    match t.lexeme, hasSome with
    | .glyph .opening, _ => some (name s (f.push t.leaf))
    | .glyph .closing, true => some (operand (.body (f.push t.leaf) :: s) {})
    | _, _ => none
  | name s f =>
    match t.lexeme with
    | .word w =>
      if Word.isName w then some (operand (.binding (f.push t.leaf) :: s) {}) else none
    | _ => none

/-- The tree of a line of `length` bytes that ends here, if it may. -/
def finish? (length : Nat) : Unfinished → Option Tree
  | ended [] l ts => some (.node .program [l.close ts length] ⟨0, length⟩)
  | _ => none

/-- What may stand after an operand. -/
def expectedEnded (stack : List Frame) (level : Level) : List Expected :=
  (if stack.isEmpty then .endOfInput else .glyph .closing) ::
    level.operators.map fun o => .glyph (.op o)

/-- What could come next, in the order in which reports list it. -/
def expected : Unfinished → List Expected
  | opened .. => [.form .expr, .reserved]
  | operand _ l =>
    if l.isFresh then [.form .expr]
    else
      (if l.product.isNone then [.form (.chain .mul), .form (.chain .div)] else []) ++
        [.numeral, .name, .glyph .opening, .unknown]
  | ended s l _ => expectedEnded s l
  | reserved s outer o _ => .glyph .opening :: expectedEnded (.group outer o :: s) {}
  | bindings _ _ hasSome => .glyph .opening :: if hasSome then [.glyph .closing] else []
  | name .. => [.name]

end Unfinished

end ArithLine

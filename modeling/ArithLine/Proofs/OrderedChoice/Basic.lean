import ArithLine.Tree.OfLine
import Mathlib.Data.Nat.Notation

/-!
# The grammar with ordered choice

The grammar as a procedure on the characters of a line. The alternatives of a choice are tried in
order and the first that matches is taken for good; a repetition goes on for as long as it can.
Outside of tokens, blanks are skipped where two parts meet and before each further round of a
repetition.

* `Pattern`, `Pattern.body`: the rules of the grammar, silent ones written out.
* `Attempts`: the farthest place at which a rule has failed, and the rules that failed there. A
  rule that got nowhere stands for the rules inside it.
* `Runs`: what a pattern does from a place on. It fails, or it is done at another place with the
  pairs of the rules that matched.
* `Pair.lower`: the parse tree of a pair.
* `Parses`: a run of the grammar on a line, as a tree or a rejection.
-/

namespace ArithLine.OrderedChoice

/-! ## Places -/

/-- A place in a line: its byte, and the characters from there on. -/
structure Cursor where
  pos : ℕ
  rest : List Char

namespace Cursor

/-- The start of a line. -/
def start (line : String) : Cursor := ⟨0, line.toList⟩

/-- The place after the blanks. -/
def skip (c : Cursor) : Cursor :=
  ⟨c.pos + byteLength (c.rest.takeWhile isBlank), c.rest.dropWhile isBlank⟩

/-- Where the next part is looked for: inside a token at once, elsewhere after blanks. -/
def next (inToken : Bool) (c : Cursor) : Cursor := if inToken then c else c.skip

/-- The characters between two places. -/
def upTo (c d : Cursor) : List Char := c.rest.take (c.rest.length - d.rest.length)

end Cursor

/-! ## Patterns -/

/-- What may stand at a place. -/
inductive Pattern where
  /-- These characters. -/
  | text (cs : List Char)
  /-- One character of a kind. -/
  | one (p : Char → Bool)
  /-- The first and then the second. -/
  | seq (e f : Pattern)
  /-- The first, or else the second. -/
  | choice (e f : Pattern)
  /-- As many as there are. -/
  | star (e : Pattern)
  /-- As many more as there are. -/
  | again (e : Pattern)
  /-- One, if there is one. -/
  | opt (e : Pattern)
  /-- Nothing, if this does not stand here. -/
  | not (e : Pattern)
  /-- The start of the line. -/
  | start
  /-- The end of the line. -/
  | stop
  /-- What a rule stands for. -/
  | call (r : Expected)

namespace Pattern

/-- One or more. -/
def plus (e : Pattern) : Pattern := seq e (star e)

/-- A parenthesis or an operator. -/
def glyph (g : Glyph) : Pattern := call (.glyph g)

/-- An expression. -/
def expr : Pattern := call (.form .expr)

/-- An expression up to its closing parenthesis. -/
def enclosed : Pattern := seq expr (glyph .closing)

/-- An operator with the operand after it. -/
def link (o : Op) (operand : Pattern) : Pattern := seq (glyph (.op o)) operand

/-- Operands with the same operator between them. -/
def chain (o : Op) (operand : Pattern) : Pattern := seq operand (plus (link o operand))

/-- A chain of one of two operators, or an operand alone. -/
def layer (o p : Op) (operand : Pattern) : Pattern :=
  choice (call (.form (.chain o))) (choice (call (.form (.chain p))) operand)

/-- An operand of a product. -/
def atom : Pattern :=
  choice (call (.form .letForm)) <| choice (call (.form .numeral)) <|
    choice (call (.form .var)) <| choice (seq (glyph .opening) enclosed) (call .unknown)

/-- An operand of a sum. -/
def product : Pattern := layer .mul .div atom

/-- What an expression stands for. -/
def sum : Pattern := layer .add .sub product

/-- A name and its expression. -/
def binding : Pattern := seq (glyph .opening) (seq (call .name) enclosed)

/-- What a let form has after its head. -/
def bindings : Pattern := seq (plus binding) (seq (glyph .closing) enclosed)

/-- A character that goes on with a token. -/
def wordChar : Pattern :=
  seq (not (one fun c => isBlank c || (Glyph.ofChar? c).isSome)) (one fun _ => true)

/-- A first character and as many others as there are, and no part of a longer token. -/
def word (first other : Char → Bool) : Pattern :=
  seq (one first) (seq (star (one other)) (not wordChar))

/-- What a rule stands for. -/
def body : Expected → Pattern
  | .endOfInput => stop
  | .form .program => seq start (seq expr (call .endOfInput))
  | .form .expr => sum
  | .form .var => call .name
  | .form .numeral => call .numeral
  | .form (.chain o) => chain o (if o.isTight then atom else product)
  | .form .letForm =>
    seq (glyph .opening) (seq (call .reserved) (seq (glyph .opening) bindings))
  | .numeral => seq (opt (text ['-'])) (word Char.isDigit Char.isDigit)
  | .name => seq (not (call .reserved)) (word Char.isAlpha Word.isNameChar)
  | .reserved => seq (text Word.reserved) (not wordChar)
  | .glyph g => text [g.char]
  | .unknown => plus wordChar

/-- Whether a rule is a token, in which nothing is skipped. -/
def isToken : Expected → Bool
  | .numeral | .name | .reserved | .unknown => true
  | _ => false

end Pattern

/-! ## Attempts -/

/-- The farthest place at which rules have failed, and these rules. -/
structure Attempts where
  pos : ℕ := 0
  rules : List Expected := []

namespace Attempts

/-- The attempts once a rule has failed that starts at a byte, from those before and after its
body. If the body has just one attempt to show for at the start, that stays; else the rule itself
takes the place of the attempts there. Attempts farther on stay in any case. -/
def track (r : Expected) (start : ℕ) (before after : Attempts) : Attempts :=
  let index := if start = before.pos then before.rules.length else 0
  let current := if start = after.pos then after.rules.length else 0
  if current - index = 1 then after
  else
    let kept : Attempts :=
      if start = after.pos then ⟨start, after.rules.take index⟩
      else if after.pos < start then ⟨start, []⟩
      else after
    if start = kept.pos then ⟨start, kept.rules ++ [r]⟩ else kept

/-- All rules, in the order of the grammar. The end of the line comes first. -/
def order : List Expected :=
  [.endOfInput] ++ Rule.all.map Expected.form ++ [.numeral, .name, .reserved] ++
    Glyph.all.map Expected.glyph ++ [.unknown]

/-- What a report says: where the attempts were, and each rule once, in the order of the grammar. -/
def rejection (a : Attempts) : Rejection := ⟨a.pos, order.filter (· ∈ a.rules)⟩

end Attempts

/-! ## Pairs -/

/-- A rule that has matched: its text, the bytes of it, and the rules that matched inside. -/
inductive Pair where
  | mk (rule : Expected) (text : List Char) (span : Span) (inner : List Pair)

mutual

/-- The parse tree of a pair. The end of the line is no part of it. -/
def Pair.lower : Pair → Option Tree
  | .mk .endOfInput _ _ _ => none
  | .mk (.form r) _ span inner => some (.node r (lowerAll inner) span)
  | .mk .unknown text span _ => some (.bad (.ofList text) span)
  | .mk _ text span _ => some (.token (.ofList text) span)

/-- The parse trees of some pairs. -/
def lowerAll : List Pair → List Tree
  | [] => []
  | p :: ps => p.lower.toList ++ lowerAll ps

end

/-! ## Runs -/

/-- How a pattern ends. -/
inductive Result where
  | fail (a : Attempts)
  | done (c : Cursor) (ps : List Pair) (a : Attempts)

namespace Result

/-- A result with some pairs before its own. -/
def after (ps : List Pair) : Result → Result
  | fail a => fail a
  | done c qs a => done c (ps ++ qs) a

/-- The result of a rule, from that of its body and what there was before. -/
def close (r : Expected) (c : Cursor) (before : Attempts) : Result → Result
  | fail a => fail (before.track r c.pos a)
  | done d ps a => done d [.mk r (c.upTo d) ⟨c.pos, d.pos⟩ ps] a

end Result

/-- **What a pattern does from a place on.** Inside a token rules leave no pairs and no attempts.
A pattern that must not stand somewhere is looked for in tokens only. -/
inductive Runs : Bool → Pattern → Cursor → Attempts → Result → Prop
  | text {m : Bool} {cs r : List Char} {c : Cursor} {a : Attempts} (h : c.rest = cs ++ r) :
    Runs m (.text cs) c a (.done ⟨c.pos + byteLength cs, r⟩ [] a)
  | text_fail {m : Bool} {cs : List Char} {c : Cursor} {a : Attempts} (h : ¬ cs <+: c.rest) :
    Runs m (.text cs) c a (.fail a)
  | one {m : Bool} {p : Char → Bool} {x : Char} {r : List Char} {c : Cursor} {a : Attempts}
    (h : c.rest = x :: r) (hp : p x) : Runs m (.one p) c a (.done ⟨c.pos + x.utf8Size, r⟩ [] a)
  | one_fail {m : Bool} {p : Char → Bool} {c : Cursor} {a : Attempts}
    (h : c.rest.head?.any p = false) : Runs m (.one p) c a (.fail a)
  | seq {m : Bool} {e f : Pattern} {c d : Cursor} {a b : Attempts} {ps : List Pair} {o : Result}
    (h : Runs m e c a (.done d ps b)) (h' : Runs m f (d.next m) b o) :
    Runs m (.seq e f) c a (o.after ps)
  | seq_fail {m : Bool} {e f : Pattern} {c : Cursor} {a b : Attempts} (h : Runs m e c a (.fail b)) :
    Runs m (.seq e f) c a (.fail b)
  | choice {m : Bool} {e f : Pattern} {c d : Cursor} {a b : Attempts} {ps : List Pair}
    (h : Runs m e c a (.done d ps b)) : Runs m (.choice e f) c a (.done d ps b)
  | choice_else {m : Bool} {e f : Pattern} {c : Cursor} {a b : Attempts} {o : Result}
    (h : Runs m e c a (.fail b)) (h' : Runs m f c b o) : Runs m (.choice e f) c a o
  | star {m : Bool} {e : Pattern} {c d : Cursor} {a b : Attempts} {ps : List Pair} {o : Result}
    (h : Runs m e c a (.done d ps b)) (h' : Runs m (.again e) d b o) :
    Runs m (.star e) c a (o.after ps)
  | star_none {m : Bool} {e : Pattern} {c : Cursor} {a b : Attempts}
    (h : Runs m e c a (.fail b)) : Runs m (.star e) c a (.done c [] b)
  | again {m : Bool} {e : Pattern} {c d : Cursor} {a b : Attempts} {ps : List Pair} {o : Result}
    (h : Runs m e (c.next m) a (.done d ps b)) (h' : Runs m (.again e) d b o) :
    Runs m (.again e) c a (o.after ps)
  | again_none {m : Bool} {e : Pattern} {c : Cursor} {a b : Attempts}
    (h : Runs m e (c.next m) a (.fail b)) : Runs m (.again e) c a (.done c [] b)
  | opt {m : Bool} {e : Pattern} {c d : Cursor} {a b : Attempts} {ps : List Pair}
    (h : Runs m e c a (.done d ps b)) : Runs m (.opt e) c a (.done d ps b)
  | opt_none {m : Bool} {e : Pattern} {c : Cursor} {a b : Attempts}
    (h : Runs m e c a (.fail b)) : Runs m (.opt e) c a (.done c [] b)
  | not {e : Pattern} {c : Cursor} {a b : Attempts} (h : Runs true e c a (.fail b)) :
    Runs true (.not e) c a (.done c [] a)
  | not_fail {e : Pattern} {c d : Cursor} {a b : Attempts} {ps : List Pair}
    (h : Runs true e c a (.done d ps b)) : Runs true (.not e) c a (.fail a)
  | start {m : Bool} {c : Cursor} {a : Attempts} (h : c.pos = 0) :
    Runs m .start c a (.done c [] a)
  | start_fail {m : Bool} {c : Cursor} {a : Attempts} (h : c.pos ≠ 0) : Runs m .start c a (.fail a)
  | stop {m : Bool} {c : Cursor} {a : Attempts} (h : c.rest = []) : Runs m .stop c a (.done c [] a)
  | stop_fail {m : Bool} {c : Cursor} {a : Attempts} (h : c.rest ≠ []) :
    Runs m .stop c a (.fail a)
  | call {r : Expected} {c : Cursor} {a : Attempts} {o : Result}
    (h : Runs (Pattern.isToken r) (Pattern.body r) c a o) :
    Runs false (.call r) c a (o.close r c a)
  | call_token {r : Expected} {c : Cursor} {a : Attempts} {o : Result}
    (h : Runs true (Pattern.body r) c a o) : Runs true (.call r) c a o

/-- **A line is parsed** into the tree of the pair that the program leaves, or rejected for what
it has tried. -/
inductive Parses (line : String) : Except Rejection Tree → Prop
  | accepted {c : Cursor} {p : Pair} {a : Attempts} {t : Tree}
    (run : Runs false (.call (.form .program)) (.start line) {} (.done c [p] a))
    (lowered : p.lower = some t) : Parses line (.ok t)
  | rejected {a : Attempts}
    (run : Runs false (.call (.form .program)) (.start line) {} (.fail a)) :
    Parses line (.error a.rejection)

end ArithLine.OrderedChoice

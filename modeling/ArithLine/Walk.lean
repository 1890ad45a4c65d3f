import ArithLine.Event

/-!
# The walk over a tree

A conversion is one walk over a tree, from left to right. Whenever something happens on the way, in
the middle of a list of operands too, a listener is told of it at once. A listener is anything that
takes notes in: a journal keeps the diagnostics among them, a log keeps them all. The walk passes
the listener on and never looks at it.
-/

namespace ArithLine

/-- Something that takes in what happens while a source is read. -/
structure Listener (σ : Type) where
  /-- Takes in the tree of a source, before the walk over it. -/
  tree : Tree → σ → σ
  /-- Takes in a note of the walk. -/
  note : Note → σ → σ

variable {σ : Type}

namespace Listener

/-- A journal takes in the diagnostics. -/
def journal : Listener Journal where
  tree _ j := j
  note
    | .visited .., j => j
    | .reported d, j => j.report d

/-- A log takes in everything. -/
def log : Listener (List Event) where
  tree t es := es ++ [.ofTree t]
  note n es := es ++ [.ofNote n]

/-- A listener that another one lends out: it hands on what it hears. -/
def lent (k : Listener σ) : Listener σ where
  tree t s := k.tree t s
  note n s := k.note n s

end Listener

namespace Tree

mutual

/-- Walks over a tree and builds the expression that it means. -/
def convert (k : Listener σ) : Tree → σ → Option Expr × σ
  | node r ts sp, s =>
    let s := k.note (.visited r ts.length) s
    match r with
    | .expr | .numeral =>
      let (es, s) := convertAll k ts s
      (es.head?, s)
    | .var =>
      match ts with
      | t :: _ => (some (.var t.text), s)
      | [] => (none, k.note (.reported (.unhandledRule r sp)) s)
    | .chain o =>
      let (es, s) := convertAll k ts s
      (some (.chain o es), s)
    | .letForm | .program => (none, k.note (.reported (.unhandledRule r sp)) s)
  | token x sp, s =>
    if isGlyph x then (none, s)
    else
      match Numeral.read? x.toList with
      | some n => (some (.const n), s)
      | none => (some .error, k.note (.reported (.illegalTerminal x sp)) s)
  | bad x sp, s => (some .error, k.note (.reported (.badWord x sp)) s)

/-- Walks over some trees and builds the expressions of those that mean one. -/
def convertAll (k : Listener σ) : List Tree → σ → List Expr × σ
  | [], s => ([], s)
  | t :: ts, s =>
    let (e, s) := t.convert k s
    let (es, s) := convertAll k ts s
    (e.toList ++ es, s)

end

/-- Walks over the tree of a whole line and builds its program. -/
def build (k : Listener σ) (t : Tree) (s : σ) : Except NoProgram Program × σ :=
  match t with
  | node .program (u :: _) _ =>
    match u.convert k s with
    | (some e, s) => (.ok ⟨e⟩, s)
    | (none, s) => (.error ⟨u.text, u.span⟩, s)
  | t => (.error ⟨t.text, t.span⟩, s)

end Tree

namespace Source

/-- Builds the program of a tree, on behalf of a source. -/
def build (k : Listener σ) (src : Source) (t : Tree) (s : σ) : Except Failure Program × σ :=
  let (r, s) := t.build k s
  (r.mapError (.noProgram src), s)

/-- Reads a source to its program. Of a source that is refused nothing is told. -/
def parse (k : Listener σ) (src : Source) (s : σ) : Except Failure Program × σ :=
  match src.tree with
  | .error f => (.error f, s)
  | .ok t => src.build k t (k.tree t s)

end Source

end ArithLine

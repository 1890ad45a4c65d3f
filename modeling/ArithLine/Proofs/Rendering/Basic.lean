import ArithLine.Proofs.Grammar.Cover
import ArithLine.Proofs.Meaning

/-!
# The texts of an expression

* `Renders`: a text of an expression, or of the operands of a chain, with any parentheses
  and blanks that it may have. Nothing else about a text is free but the leading zeros of
  its numerals.
* `Expr.RenderedBy`: a line that is a text of an expression, with blanks around it.
* `Stretch`: tokens that cover a text wherever it stands before no word. Texts are put
  together piece by piece, and so are the tokens that cover them.
-/

namespace ArithLine

/-! ## Texts of an expression -/

/-- Whether an expression needs parentheses where it is an operand: a sum needs them in a
sum, and every chain needs them in a product. -/
def Expr.needsParens (o : Op) : Expr → Bool
  | chain p _ => o.isTight || !p.isTight
  | _ => false

/-- What a text is a text of. -/
inductive Subject where
  /-- An expression, with parentheses around all of it or not. -/
  | expr (e : Expr) (enclosed : Bool)
  /-- The operands of an operator, joined by it. -/
  | operands (o : Op) (es : List Expr)

/-- **The texts of an expression.** A constant is any numeral of its value, and blanks may
stand on either side of an operator and inside parentheses. -/
inductive Renders : Subject → List Char → Prop
  | const {n : Int64} {cs : List Char} (literal : Numeral.IsLiteral cs)
    (value : Numeral.signedValue cs = n.toInt) : Renders (.expr (.const n) false) cs
  | var {x : String} (isName : Word.isName x.toList) : Renders (.expr (.var x) false) x.toList
  | group {e : Expr} {b : Bool} {bs cs bs' : List Char} (hbs : bs.all isBlank)
    (h : Renders (.expr e b) cs) (hbs' : bs'.all isBlank) :
    Renders (.expr e true) ('(' :: (bs ++ (cs ++ (bs' ++ [')']))))
  | chain {o : Op} {es : List Expr} {cs : List Char} (two : 2 ≤ es.length)
    (h : Renders (.operands o es) cs) : Renders (.expr (.chain o es) false) cs
  | one {o : Op} {e : Expr} {b : Bool} {cs : List Char} (parens : e.needsParens o → b)
    (h : Renders (.expr e b) cs) : Renders (.operands o [e]) cs
  | more {o : Op} {e : Expr} {b : Bool} {es : List Expr} {cs bs bs' ds : List Char}
    (parens : e.needsParens o → b) (h : Renders (.expr e b) cs) (hbs : bs.all isBlank)
    (hbs' : bs'.all isBlank) (rest : Renders (.operands o es) ds) :
    Renders (.operands o (e :: es)) (cs ++ (bs ++ o.glyph :: (bs' ++ ds)))

/-- Whether a line is a text of an expression with blanks around it. -/
def Expr.RenderedBy (e : Expr) (line : String) : Prop :=
  ∃ bs cs bs' b, line.toList = bs ++ (cs ++ bs') ∧ bs.all isBlank ∧ bs'.all isBlank ∧
    Renders (.expr e b) cs

/-! ## Covering a text piece by piece -/

/-- Some tokens cover a text that starts at byte `n` wherever it stands before no word. -/
def Stretch (n : ℕ) (ts : List Token) (cs : List Char) : Prop :=
  ∀ us rest, rest.head?.any isWordChar = false → Covers (n + byteLength cs) us rest →
    Covers n (ts ++ us) (cs ++ rest)

namespace Stretch

variable {n : ℕ} {ts us : List Token} {bs cs bs' ds : List Char}

/-- Blanks end a word. -/
theorem head?_blanks (hbs : bs.all isBlank) (h : cs.head?.any isWordChar = false) :
    (bs ++ cs).head?.any isWordChar = false := by
  cases bs with
  | nil => exact h
  | cons c bs =>
    rw [List.all_cons, Bool.and_eq_true] at hbs
    simp [isWordChar, hbs.1]

theorem head?_glyph (g : Glyph) (cs : List Char) : (g.char :: cs).head?.any isWordChar = false := by
  simpa using not_isWordChar_char g

theorem of_precedes {l : Lexeme} (h : ∀ rest : List Char, rest.head?.any isWordChar = false →
    l.Precedes rest) (n : ℕ) : Stretch n [⟨l, n⟩] l.chars :=
  fun _ rest hrest hus => .token (h rest hrest) hus

theorem group (h : Stretch (n + 1 + byteLength bs) ts cs) (hbs : bs.all isBlank)
    (hbs' : bs'.all isBlank) :
    Stretch n (⟨.glyph .opening, n⟩ :: (ts ++
        [⟨.glyph .closing, n + 1 + byteLength bs + byteLength cs + byteLength bs'⟩]))
      ('(' :: (bs ++ (cs ++ (bs' ++ [')'])))) := by
  intro us rest hrest hus
  simp only [List.cons_append, List.append_assoc, List.nil_append]
  refine .glyph .opening (.blanks hbs (h _ _ ?_ (.blanks hbs' (.glyph .closing ?_))))
  · exact head?_blanks hbs' (head?_glyph .closing rest)
  · convert hus using 1
    simp
    omega

theorem more {o : Op} (h : Stretch n ts cs) (hbs : bs.all isBlank) (hbs' : bs'.all isBlank)
    (hr : Stretch (n + byteLength cs + byteLength bs + 1 + byteLength bs') us ds) :
    Stretch n (ts ++ ⟨.glyph (.op o), n + byteLength cs + byteLength bs⟩ :: us)
      (cs ++ (bs ++ o.glyph :: (bs' ++ ds))) := by
  intro vs rest hrest hvs
  simp only [List.cons_append, List.append_assoc]
  refine h _ _ ?_ (.blanks hbs (.glyph (.op o) (.blanks hbs' (hr _ _ hrest ?_))))
  · exact head?_blanks hbs (head?_glyph (.op o) _)
  · convert hvs using 1
    simp
    omega

end Stretch

end ArithLine

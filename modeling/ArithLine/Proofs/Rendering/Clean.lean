import ArithLine.Proofs.Conversion
import ArithLine.Proofs.Rendering.Basic

/-!
# Derivations about which nothing is reported

* `Converts`: the parse trees of some derivations convert to some expressions, and nothing
  is reported about them. It holds of a node if it holds of its parts, and a layer, an
  expression or parentheses add nothing.
* `Grammar.Layer.Allows`: which expressions may stand where a layer is wanted. For the
  operands of a chain this says which of them need parentheses (`allows_operand_iff`).
-/

namespace ArithLine

open Grammar Derivation

/-- Whether an expression may stand where a layer is wanted: a chain stands in a product only
if it is one, and in an atom only with parentheses around it. -/
def Grammar.Layer.Allows : Layer → Expr → Bool → Prop
  | .product, .chain o _, enclosed => o.isTight = false → enclosed
  | .atom, .chain _ _, enclosed => enclosed
  | .binding, _, _ => False
  | _, _, _ => True

theorem Grammar.Layer.Allows.ne_binding {l : Layer} {e : Expr} {b : Bool} (h : l.Allows e b) :
    l ≠ .binding := by
  rintro rfl
  cases h

theorem allows_operand_iff {o : Op} {e : Expr} {b : Bool} :
    (operand o).Allows e b ↔ (e.needsParens o → b) := by
  rw [operand]
  split <;> cases e <;> simp_all [Layer.Allows, Expr.needsParens]

namespace Grammar.Derivation

variable {line : List Char} {d : Derivation} {ds : List Derivation} {o : Op}

/-! ## Nothing is reported -/

/-- A numeral is read as its value, if that fits in 64 bits. -/
theorem read?_text {t : Token} (ht : Terminal.numeral.Admits t.lexeme) :
    Tree.isGlyph t.text = false ∧ Numeral.read? t.text.toList =
      if Numeral.isWord (Numeral.signedValue t.lexeme.chars) then
        some (.ofInt (Numeral.signedValue t.lexeme.chars))
      else none := by
  have htext : t.text.toList = t.lexeme.chars := String.toList_ofList
  have hlit : Numeral.IsLiteral t.text.toList := by
    rw [htext]; exact isLiteral_of_admits ht
  rw [← htext]
  exact ⟨Tree.isGlyph_eq_false hlit, Numeral.read?_of_isLiteral hlit⟩

/-- Whether nothing is reported about some derivations. -/
def IsClean (line : List Char) (ds : List Derivation) : Prop :=
  (Tree.notesAll (lowerAll line ds)).filterMap Note.diagnostic? = []

theorem isClean_append {es : List Derivation} :
    IsClean line (ds ++ es) ↔ IsClean line ds ∧ IsClean line es := by
  rw [IsClean, lowerAll_append, Tree.notesAll_eq, List.flatMap_append, List.filterMap_append,
    ← Tree.notesAll_eq, ← Tree.notesAll_eq, List.append_eq_nil_iff]
  rfl

theorem isClean_cons : IsClean line (d :: ds) ↔ IsClean line [d] ∧ IsClean line ds := by
  rw [← List.singleton_append, isClean_append]

theorem isClean_glyph (line : List Char) (g : Glyph) (n : ℕ) :
    IsClean line [leaf (.glyph g) ⟨.glyph g, n⟩] := by
  simp [IsClean, lowerAll, lower, Token.leaf, Tree.notesAll, Tree.notes, Tree.isGlyph_glyph]

theorem isClean_layer {l : Layer} : IsClean line [node (.layer l) ds] ↔ IsClean line ds := by
  rw [IsClean, lowerAll_layer, IsClean]

theorem isClean_expr : IsClean line [node (.rule .expr) ds] ↔ IsClean line ds := by
  simp [IsClean, lowerAll, lower, Tree.notesAll, Tree.notes, Note.diagnostic?, List.filterMap_cons]

theorem isClean_chain : IsClean line [node (.rule (.chain o)) ds] ↔ IsClean line ds := by
  simp [IsClean, lowerAll, lower, Tree.notesAll, Tree.notes, Note.diagnostic?, List.filterMap_cons]

theorem not_isClean_letForm (ds : List Derivation) : ¬ IsClean line [node (.rule .letForm) ds] := by
  simp [IsClean, lowerAll, lower, Tree.notesAll, Tree.notes, Note.diagnostic?, List.filterMap_cons]

theorem not_isClean_unknown (t : Token) : ¬ IsClean line [leaf .unknown t] := by
  simp [IsClean, lowerAll, lower, Tree.notesAll, Tree.notes, Note.diagnostic?]

theorem isClean_numeral {t : Token} (ht : Terminal.numeral.Admits t.lexeme) :
    IsClean line [node (.rule .numeral) [leaf .numeral t]] ↔
      Numeral.isWord (Numeral.signedValue t.lexeme.chars) := by
  obtain ⟨hg, hread⟩ := read?_text ht
  by_cases hv : Numeral.isWord (Numeral.signedValue t.lexeme.chars) <;>
    simp [IsClean, lowerAll, lower, Token.leaf, Tree.notesAll, Tree.notes, Note.diagnostic?,
      List.filterMap_cons, hg, hread, hv]

/-! ## What a clean derivation converts to -/

/-- The conversion of some derivations' parse trees is some expressions, and nothing is
reported. -/
structure Converts (line : List Char) (ds : List Derivation) (es : List Expr) : Prop where
  exprs : Tree.exprs (lowerAll line ds) = es
  clean : IsClean line ds

theorem converts_append {es : List Derivation} {xs ys : List Expr} (hd : Converts line ds xs)
    (he : Converts line es ys) : Converts line (ds ++ es) (xs ++ ys) := by
  refine ⟨?_, isClean_append.2 ⟨hd.clean, he.clean⟩⟩
  rw [lowerAll_append, Tree.exprs_eq, List.flatMap_append, ← Tree.exprs_eq, ← Tree.exprs_eq,
    hd.exprs, he.exprs]

theorem converts_glyph (line : List Char) (g : Glyph) (n : ℕ) :
    Converts line [leaf (.glyph g) ⟨.glyph g, n⟩] [] := by
  refine ⟨?_, isClean_glyph line g n⟩
  simp [lowerAll, lower, Token.leaf, Tree.exprs, Tree.expr?, Tree.isGlyph_glyph]

theorem Converts.of_standsFor {e : Derivation} {xs : List Expr} (h : Converts line [d] xs)
    (he : e.StandsFor d) : Converts line [e] xs := by
  refine ⟨?_, ?_⟩
  · rw [lowerAll_singleton, he.lower, ← lowerAll_singleton, h.exprs]
  · rw [IsClean, lowerAll_singleton, he.lower, ← lowerAll_singleton]
    exact h.clean

/-- A layer around a derivation changes nothing. -/
theorem converts_layer {l : Layer} {es : List Expr} :
    Converts line [node (.layer l) ds] es ↔ Converts line ds es := by
  have hlow := lowerAll_layer line l ds
  constructor
  · exact fun h => ⟨hlow ▸ h.exprs, isClean_layer.1 h.clean⟩
  · exact fun h => ⟨hlow.symm ▸ h.exprs, isClean_layer.2 h.clean⟩

/-- A node of an expression or of parentheses changes nothing either. -/
theorem converts_expr {e : Expr} (h : Converts line ds [e]) :
    Converts line [node (.rule .expr) ds] [e] := by
  refine ⟨?_, isClean_expr.2 h.clean⟩
  simp [lowerAll, lower, Tree.exprs, Tree.expr?, h.exprs]

theorem converts_group {e : Expr} (m n : ℕ) (h : Converts line [d] [e]) :
    Converts line [leaf (.glyph .opening) ⟨.glyph .opening, m⟩, d,
      leaf (.glyph .closing) ⟨.glyph .closing, n⟩] [e] :=
  converts_append (converts_glyph line .opening m)
    (converts_append h (converts_glyph line .closing n))

theorem converts_chain {es : List Expr} (h : Converts line ds es) :
    Converts line [node (.rule (.chain o)) ds] [.chain o es] := by
  refine ⟨?_, isClean_chain.2 h.clean⟩
  simp [lowerAll, lower, Tree.exprs, Tree.expr?, h.exprs]

theorem converts_var (line w : List Char) (n : ℕ) :
    Converts line [node (.rule .var) [leaf .name ⟨.word w, n⟩]] [.var (.ofList w)] := ⟨rfl, rfl⟩

theorem converts_numeral {t : Token} {n : Int64} (ht : Terminal.numeral.Admits t.lexeme)
    (hn : Numeral.signedValue t.lexeme.chars = n.toInt) :
    Converts line [node (.rule .numeral) [leaf .numeral t]] [.const n] := by
  obtain ⟨hg, hread⟩ := read?_text ht
  have hword : Numeral.isWord (Numeral.signedValue t.lexeme.chars) := hn ▸ Numeral.isWord_toInt n
  rw [if_pos hword, hn, Int64.ofInt_toInt] at hread
  refine ⟨?_, (isClean_numeral ht).2 hword⟩
  simp [lowerAll, lower, Token.leaf, Tree.exprs, Tree.expr?, hg, hread]

end Grammar.Derivation

end ArithLine

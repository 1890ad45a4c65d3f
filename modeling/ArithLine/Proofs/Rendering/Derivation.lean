import ArithLine.Proofs.Rendering.Clean

/-!
# From a text to its derivation

Every text of an expression has a derivation that covers it and that converts to the
expression, without a report (`Renders.hasDerivation`). The induction is on the text; a
derivation is wanted of any layer that allows the expression, since the operands of a chain
and an expression in parentheses do not stand in the same layer.
-/

namespace ArithLine

open Grammar Derivation

namespace Grammar.Derivation

variable {e : Expr} {d : Derivation}

/-- A layer that allows a chain may be it. -/
theorem exists_layer_of_chain {o : Op} {es : List Expr} (hd : Of (.rule (.chain o)) d) {l : Layer}
    (hl : l.Allows (.chain o es) false) : ∃ d', Of (.layer l) d' ∧ d'.StandsFor d := by
  cases l with
  | sum =>
    by_cases ho : o.isTight
    · have hp := of_product_iff.2 ⟨d, .inl ⟨o, ho, hd⟩, rfl⟩
      exact ⟨_, of_sum_iff.2 ⟨_, .inr hp, rfl⟩, ((StandsFor.refl d).layer .product).layer .sum⟩
    · exact ⟨_, of_sum_iff.2 ⟨d, .inl ⟨o, by simpa using ho, hd⟩, rfl⟩,
        (StandsFor.refl d).layer .sum⟩
  | product =>
    have ho : o.isTight = true := by
      by_contra h
      cases hl (by simpa using h)
    exact ⟨_, of_product_iff.2 ⟨d, .inl ⟨o, ho, hd⟩, rfl⟩, (StandsFor.refl d).layer .product⟩
  | atom => cases hl
  | binding => cases hl

end Grammar.Derivation

theorem exists_lexeme_of_isLiteral {cs : List Char} (h : Numeral.IsLiteral cs) :
    ∃ l, Terminal.numeral.Admits l ∧ l.chars = cs ∧
      ∀ rest : List Char, rest.head?.any isWordChar = false → l.Precedes rest := by
  obtain ⟨ds, hds, rfl | rfl⟩ := h
  · obtain ⟨hne, hall⟩ := isWordChar_of_isNumeral hds
    exact ⟨.word _, hds, rfl, fun _ hrest => ⟨hne, hall, hrest⟩⟩
  · exact ⟨.signed ds, hds, rfl, fun _ hrest => ⟨hds, hrest⟩⟩

/-- Whether wherever a text starts there is a derivation of it that converts to what it is
a text of. -/
def Subject.HasDerivation (cs : List Char) : Subject → Prop
  | .expr e b => ∀ l : Layer, l.Allows e b → ∀ n, ∃ d, Of (.layer l) d ∧ Stretch n d.yield cs ∧
      ∀ line, Converts line [d] [e]
  | .operands o es => ∀ n, ∃ k ds, es.length = k + 1 ∧
      List.Forall₂ Of (.layer (operand o) :: linkWord o k) ds ∧ Stretch n (yieldAll ds) cs ∧
      ∀ line, Converts line ds es

/-- **A text of an expression has a derivation.** -/
theorem Renders.hasDerivation {s : Subject} {cs : List Char} (h : Renders s cs) :
    s.HasDerivation cs := by
  induction h with
  | @const n cs literal value =>
    intro l hl k
    obtain ⟨w, hw, rfl, hprec⟩ := exists_lexeme_of_isLiteral literal
    have hd := of_atom_iff.2 ⟨_, .numeral (of_numeral_iff.2 ⟨⟨w, k⟩, hw, rfl⟩), rfl⟩
    obtain ⟨d, hd, hfor⟩ := exists_layer_of_atom hd hl.ne_binding
    refine ⟨d, hd, ?_, fun line => (converts_layer.2 (converts_numeral hw value)).of_standsFor hfor⟩
    rw [hfor.yield]
    exact .of_precedes hprec k
  | @var x isName =>
    intro l hl k
    have hd := of_atom_iff.2 ⟨_, .var (of_var_iff.2 ⟨x.toList, k, isName, rfl⟩), rfl⟩
    obtain ⟨d, hd, hfor⟩ := exists_layer_of_atom hd hl.ne_binding
    have hvar : ∀ line, Converts line [_] [.var x] := fun line =>
      String.ofList_toList (s := x) ▸ converts_var line x.toList k
    refine ⟨d, hd, ?_, fun line => (converts_layer.2 (hvar line)).of_standsFor hfor⟩
    rw [hfor.yield]
    obtain ⟨hne, hall⟩ := isWordChar_of_isName isName
    exact .of_precedes (l := .word x.toList) (fun _ hrest => ⟨hne, hall, hrest⟩) k
  | @group e b bs cs bs' hbs _ hbs' ih =>
    intro l hl n
    -- inside parentheses any expression may stand, so a sum is asked for
    obtain ⟨d, hd, hseg, hconv⟩ := ih .sum trivial (n + 1 + byteLength bs)
    have ha := of_atom_iff.2 ⟨_, .group n (n + 1 + byteLength bs + byteLength cs + byteLength bs')
      (of_expr_iff.2 ⟨d, hd, rfl⟩), rfl⟩
    obtain ⟨d', hd', hfor⟩ := exists_layer_of_atom ha hl.ne_binding
    refine ⟨d', hd', ?_, fun line =>
      (converts_layer.2 (converts_group _ _ (converts_expr (hconv line)))).of_standsFor hfor⟩
    rw [hfor.yield]
    simpa [yield, yieldAll] using hseg.group hbs hbs'
  | @chain o es cs two _ ih =>
    intro l hl n
    obtain ⟨k, ds, hlen, hds, hseg, hconv⟩ := ih n
    -- the grammar has no chain of one operand
    obtain ⟨j, rfl⟩ : ∃ j, k = j + 1 := ⟨k - 1, by omega⟩
    obtain ⟨d, ds, hd, hrest, rfl⟩ := List.forall₂_cons_left_iff.1 hds
    obtain ⟨d', hd', hfor⟩ :=
      exists_layer_of_chain (of_chain_iff.2 ⟨j, d, ds, hd, hrest, rfl⟩) hl
    refine ⟨d', hd', ?_, fun line => (converts_chain (hconv line)).of_standsFor hfor⟩
    rw [hfor.yield]
    exact hseg
  | @one o e b cs parens _ ih =>
    intro n
    obtain ⟨d, hd, hseg, hconv⟩ := ih _ (allows_operand_iff.2 parens) n
    exact ⟨0, [d], rfl, .cons hd .nil, by simpa [yieldAll] using hseg, hconv⟩
  | @more o e b es cs bs bs' ds parens _ hbs hbs' _ ih ihr =>
    intro n
    obtain ⟨d, hd, hseg, hconv⟩ := ih _ (allows_operand_iff.2 parens) n
    obtain ⟨k, rs, hlen, hrs, hsegr, hconvr⟩ :=
      ihr (n + byteLength cs + byteLength bs + 1 + byteLength bs')
    obtain ⟨f, fs, hf, hfs, rfl⟩ := List.forall₂_cons_left_iff.1 hrs
    refine ⟨k + 1, d :: _ :: f :: fs, by rw [List.length_cons, hlen],
      .cons hd (links_succ_iff.2 ⟨n + byteLength cs + byteLength bs, f, fs, hf, hfs, rfl⟩), ?_,
      fun line => ?_⟩
    · simpa [yieldAll, yield] using hseg.more hbs hbs' hsegr
    · exact converts_append (hconv line) (converts_append (converts_glyph line _ _) (hconvr line))

end ArithLine

import ArithLine.Proofs.Grammar.Shape

/-!
# Operands

* `IsOperand`: the derivations of expressions and of what stands in them, without what is
  inside a let form. What there is to show of an expression is shown by induction on this.

The children of a chain are its operands and the operators between them. An operand
is one parse tree, or three where parentheses stand around it, and none of these is
an operator itself. So the operators among the children tell the operands apart:

* `Tree.operandsOf`: the runs of children between the operators.
* `exists_operands`: these runs are the parse trees of the derivations that the
  grammar has for operands.
-/

namespace ArithLine

namespace Tree

/-- Whether a parse tree is the token of an operator. -/
def isOperator (o : Op) : Tree → Bool
  | token s _ => s == .ofList [o.glyph]
  | _ => false

/-- The operands among the children of a chain. -/
def operandsOf (o : Op) (ts : List Tree) : List (List Tree) := ts.splitOnP (isOperator o)

@[simp] theorem isOperator_leaf (o : Op) (g : Glyph) (n : ℕ) :
    (Token.leaf ⟨.glyph g, n⟩).isOperator o = decide (g = .op o) := by
  change (String.ofList [g.char] == String.ofList [Glyph.char (.op o)]) = _
  rcases g with _ | _ | (_ | _ | _ | _) <;> cases o <;> decide

end Tree

namespace Grammar

/-- Whether a symbol stands for an expression or for something that may be one. -/
def Symbol.isOperand : Symbol → Bool
  | .terminal k => k = .unknown
  | .nonterminal (.rule .program) | .nonterminal (.layer .binding) => false
  | .nonterminal _ => true

namespace Derivation

/-- **The derivations of operands and expressions.** -/
inductive IsOperand : Symbol → Derivation → Prop
  | unknown (t : Token) : IsOperand (.terminal .unknown) (leaf .unknown t)
  | numeral {t : Token} (ht : Terminal.numeral.Admits t.lexeme) :
    IsOperand (.rule .numeral) (node (.rule .numeral) [leaf .numeral t])
  | var {w : List Char} (hw : Word.isName w) (n : ℕ) :
    IsOperand (.rule .var) (node (.rule .var) [leaf .name ⟨.word w, n⟩])
  | letForm (ds : List Derivation) : IsOperand (.rule .letForm) (node (.rule .letForm) ds)
  | chain {o : Op} {k : ℕ} {ds : List Derivation}
    (hds : List.Forall₂ Of (.layer (operand o) :: linkWord o (k + 1)) ds)
    (h : ∀ d ∈ ds, Of (.layer (operand o)) d → IsOperand (.layer (operand o)) d) :
    IsOperand (.rule (.chain o)) (node (.rule (.chain o)) ds)
  | layer {l : Layer} {s : Symbol} {d : Derivation} (hw : [s] ∈ (body (.layer l)).matches')
    (h : IsOperand s d) : IsOperand (.layer l) (node (.layer l) [d])
  | group (m n : ℕ) {d : Derivation} (h : IsOperand (.rule .expr) d) :
    IsOperand (.layer .atom) (node (.layer .atom) [leaf (.glyph .opening) ⟨.glyph .opening, m⟩, d,
      leaf (.glyph .closing) ⟨.glyph .closing, n⟩])
  | expr {d : Derivation} (h : IsOperand (.layer .sum) d) :
    IsOperand (.rule .expr) (node (.rule .expr) [d])

theorem Valid.isOperand {d : Derivation} (hd : d.Valid) (hs : d.symbol.isOperand) :
    IsOperand d.symbol d := by
  induction hd with
  | @leaf k t admits =>
    cases k with
    | unknown => exact .unknown t
    | _ => cases hs
  | @node n ds hw hv ih =>
    have hparts := valid_parts_iff.2 ⟨rfl, hv⟩
    -- the only part of a layer or an expression
    have hone : ∀ {s : Symbol}, ds.map symbol = [s] → s.isOperand →
        ∃ d, ds = [d] ∧ IsOperand s d := by
      intro s hds hs
      obtain ⟨d, rfl, rfl⟩ := List.map_eq_singleton_iff.1 hds
      exact ⟨d, rfl, ih d (by simp) hs⟩
    rcases n with r | l
    · cases r with
      | program => cases hs
      | expr =>
        obtain ⟨d, rfl, h⟩ := hone (mem_layer.1 hw) rfl
        exact .expr h
      | var =>
        obtain ⟨w, n, hname, h⟩ := of_var_iff.1 ⟨rfl, .node hw hv⟩
        obtain rfl := (Derivation.node.inj h).2
        exact .var hname n
      | numeral =>
        obtain ⟨t, ht, h⟩ := of_numeral_iff.1 ⟨rfl, .node hw hv⟩
        obtain rfl := (Derivation.node.inj h).2
        exact .numeral ht
      | chain o =>
        obtain ⟨k, hk⟩ := mem_body_chain.1 hw
        refine .chain (hk ▸ hparts) fun d hd hof => ?_
        have := ih d hd
        rw [hof.symbol] at this
        cases o <;> exact this rfl
      | letForm => exact .letForm ds
    · have hlayer : ∀ {s : Symbol}, ds.map symbol = [s] → s.isOperand →
          IsOperand (.layer l) (Derivation.node (.layer l) ds) := by
        intro s hds hs
        obtain ⟨d, rfl, h⟩ := hone hds hs
        rw [hds] at hw
        exact .layer hw h
      cases l with
      | sum =>
        rcases mem_body_sum.1 hw with ⟨o, -, hds⟩ | hds
        · exact hlayer hds rfl
        · exact hlayer hds rfl
      | product =>
        rcases mem_body_product.1 hw with ⟨o, -, hds⟩ | hds
        · exact hlayer hds rfl
        · exact hlayer hds rfl
      | atom =>
        rcases mem_body_atom.1 hw with hds | hds | hds | hds | hds
        · exact hlayer hds rfl
        · exact hlayer hds rfl
        · exact hlayer hds rfl
        · obtain ⟨m, e, n, he, rfl⟩ := between_parts_iff.1 (hds ▸ hparts)
          have h := ih e (by simp) (he.symbol ▸ rfl)
          rw [he.symbol] at h
          exact .group m n h
        · exact hlayer hds rfl
      | binding => cases hs

theorem Of.isOperand {s : Symbol} {d : Derivation} (hd : Of s d) (hs : s.isOperand) :
    IsOperand s d := by
  have := hd.valid.isOperand (hd.symbol ▸ hs)
  rwa [hd.symbol] at this

variable {line : List Char} {o : Op} {d : Derivation}

/-! ## Layers -/

/-- Whether a derivation has the tokens of another and the same parse trees. -/
structure StandsFor (e d : Derivation) : Prop where
  yield : e.yield = d.yield
  lower : ∀ line, e.lower line = d.lower line

theorem StandsFor.refl (d : Derivation) : d.StandsFor d := ⟨rfl, fun _ => rfl⟩

theorem StandsFor.layer {e : Derivation} (h : e.StandsFor d) (l : Layer) :
    (node (.layer l) [e]).StandsFor d :=
  ⟨by rw [Derivation.yield, yieldAll_singleton, h.yield],
    fun line => by rw [Derivation.lower, lowerAll_singleton, h.lower]⟩

/-- Any layer but that of bindings may be an atom. -/
theorem exists_layer_of_atom (hd : Of (.layer .atom) d) {l : Layer} (hl : l ≠ .binding) :
    ∃ e, Of (.layer l) e ∧ e.StandsFor d := by
  have hproduct := of_product_iff.2 ⟨d, .inr hd, rfl⟩
  cases l with
  | atom => exact ⟨d, hd, .refl d⟩
  | product => exact ⟨_, hproduct, (StandsFor.refl d).layer .product⟩
  | sum =>
    exact ⟨_, of_sum_iff.2 ⟨_, .inr hproduct, rfl⟩, ((StandsFor.refl d).layer .product).layer .sum⟩
  | binding => exact absurd rfl hl

/-- A sum may be any layer but that of bindings. -/
theorem exists_sum_of_layer {l : Layer} (hd : Of (.layer l) d) (hl : l ≠ .binding) :
    ∃ e, Of (.layer .sum) e ∧ e.StandsFor d := by
  cases l with
  | atom => exact exists_layer_of_atom hd (by simp)
  | product => exact ⟨_, of_sum_iff.2 ⟨d, .inr hd, rfl⟩, (StandsFor.refl d).layer .sum⟩
  | sum => exact ⟨d, hd, .refl d⟩
  | binding => exact absurd rfl hl

/-! ## The operands of a chain -/

/-- An expression is one parse tree. -/
theorem exists_lower_expr (line : List Char) (hd : Of (.rule .expr) d) :
    ∃ ts sp, d.lower line = [.node .expr ts sp] := by
  obtain ⟨e, -, rfl⟩ := of_expr_iff.1 hd
  exact ⟨_, _, rfl⟩

/-- The operators inside an atom are children of its nodes. -/
theorem not_isOperator_of_atom (hd : Of (.layer .atom) d) (o : Op) :
    ∀ t ∈ d.lower line, t.isOperator o = false := by
  obtain ⟨ds, h, rfl⟩ := of_atom_iff.1 hd
  cases h with
  | letForm h =>
    obtain ⟨a, b, c, bs, m, e, n, -, -, -, rfl⟩ := of_letForm_iff.1 h
    simp [lower, lowerAll, Tree.isOperator]
  | numeral h =>
    obtain ⟨t, -, rfl⟩ := of_numeral_iff.1 h
    simp [lower, lowerAll, Tree.isOperator]
  | var h =>
    obtain ⟨u, n, -, rfl⟩ := of_var_iff.1 h
    simp [lower, lowerAll, Tree.isOperator]
  | unknown h =>
    obtain ⟨u, n, -, rfl⟩ := of_unknown_iff.1 h
    simp [lower, lowerAll, Tree.isOperator]
  | group m n h =>
    obtain ⟨ts, sp, he⟩ := exists_lower_expr line h
    simp only [lower, lowerAll, he, reduceCtorEq, if_false, List.append_nil, List.cons_append,
      List.nil_append, List.forall_mem_cons, Tree.isOperator_leaf]
    exact ⟨rfl, rfl, rfl, List.forall_mem_nil _⟩

/-- The operators inside an operand are children of its nodes. -/
theorem not_isOperator_of_operand (hd : Of (.layer (operand o)) d) (p : Op) :
    ∀ t ∈ d.lower line, t.isOperator p = false := by
  rw [operand] at hd
  split at hd
  · exact not_isOperator_of_atom hd p
  · obtain ⟨e, ⟨q, -, he⟩ | he, rfl⟩ := of_product_iff.1 hd
    · obtain ⟨k, f, fs, -, -, rfl⟩ := of_chain_iff.1 he
      simp [lower, lowerAll, Tree.isOperator]
    · simpa [lower, lowerAll] using not_isOperator_of_atom he p

/-- **The runs between the operators of a chain are its operands.** -/
theorem exists_operands (line : List Char) {k : ℕ} {ds : List Derivation}
    (h : List.Forall₂ Of (.layer (operand o) :: linkWord o k) ds) :
    ∃ es : List Derivation, es.length = k + 1 ∧ (∀ e ∈ es, e ∈ ds ∧ Of (.layer (operand o)) e) ∧
      Tree.operandsOf o (lowerAll line ds) = es.map (lower line) := by
  induction k generalizing ds with
  | zero =>
    obtain ⟨e, es, he, hes, rfl⟩ := List.forall₂_cons_left_iff.1 h
    obtain rfl := List.forall₂_nil_left_iff.1 hes
    refine ⟨[e], rfl, by simpa using he, ?_⟩
    rw [lowerAll_singleton, Tree.operandsOf,
      List.splitOnP_eq_singleton (not_isOperator_of_operand he o), List.map_singleton]
  | succ k ih =>
    obtain ⟨e, es, he, hes, rfl⟩ := List.forall₂_cons_left_iff.1 h
    obtain ⟨n, f, fs, hf, hfs, rfl⟩ := links_succ_iff.1 hes
    obtain ⟨gs, hlen, hgs, hsplit⟩ := ih (.cons hf hfs)
    refine ⟨e :: gs, by simp [hlen], List.forall_mem_cons.2 ⟨⟨by simp, he⟩, ?_⟩, ?_⟩
    · exact fun g hg => ⟨List.mem_cons_of_mem _ (List.mem_cons_of_mem _ (hgs g hg).1), (hgs g hg).2⟩
    rw [List.map_cons, ← hsplit]
    exact List.splitOnP_append_cons_of_forall_mem (not_isOperator_of_operand he o) _ (by simp) _

/-- The number of operands of a chain. -/
theorem length_operandsOf (line : List Char) {k : ℕ} {ds : List Derivation}
    (h : List.Forall₂ Of (.layer (operand o) :: linkWord o k) ds) :
    (Tree.operandsOf o (lowerAll line ds)).length = k + 1 := by
  obtain ⟨es, hlen, -, hsplit⟩ := exists_operands line h
  rw [hsplit, List.length_map, hlen]

end Derivation

end Grammar

end ArithLine

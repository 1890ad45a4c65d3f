import ArithLine.Proofs.Conversion
import ArithLine.Proofs.Parentheses.Reports
import ArithLine.Proofs.Spans

/-!
# Parentheses in a derivation

* `exists_group`: a layer with parentheses around it is read like the layer alone.
* `Context.readsLike_fill`: so is any derivation around it.
* `Context.exists_group_fill`: such parentheses in an expression, where the other tokens make room
  for them.
* `Valid.exists_layer`: each part of a parse tree that is no token is all of a layer, and it is
  this layer that parentheses are put around.
-/

namespace ArithLine

open Grammar Derivation

namespace Tree

/-- Whether a tree is no program and no token. -/
def IsEnclosable : Tree → Prop
  | node r _ _ => r ≠ .program
  | token .. => False
  | bad .. => True

/-- Whether a tree is a node or a leaf of some others. -/
def IsPartOf (u : Tree) (ts : List Tree) : Prop := u ∈ nodesAll ts ∨ u ∈ leavesAll ts

theorem extent_singleton (u : Tree) : extent [u] = u.span := rfl

end Tree

namespace Grammar

/-- Whether a symbol stands for an operand that is one parse tree. -/
def Symbol.isSingle : Symbol → Bool
  | .terminal k => k = .unknown
  | .nonterminal (.rule .program) | .nonterminal (.rule .expr) | .nonterminal (.layer _) => false
  | .nonterminal (.rule _) => true

/-- What has an operand that is one parse tree among its parts is a layer, and has no other
part. -/
theorem exists_layer_of_isSingle {n : Nonterminal} {w : List Symbol} {s : Symbol}
    (h : w ∈ (body n).matches') (hs : s ∈ w) (hsingle : s.isSingle) :
    ∃ l, n = .layer l ∧ l ≠ .binding ∧ w = [s] := by
  have hall : ∀ m : Nonterminal, ∀ t ∈ symbols (body m), t.isSingle = true →
      m ∈ [Nonterminal.layer .sum, .layer .product, .layer .atom] := by
    rintro ((_ | _ | _ | _ | (_ | _ | _ | _) | _) | (_ | _ | _ | _)) <;> decide
  have hone : ∀ t, w = [t] → w = [s] := by
    rintro t rfl
    rw [List.mem_singleton.1 hs]
  have hn := hall n s (mem_symbols h s hs) hsingle
  simp only [List.mem_cons, List.not_mem_nil, or_false] at hn
  rcases hn with rfl | rfl | rfl
  · refine ⟨_, rfl, by simp, ?_⟩
    rcases mem_body_sum.1 h with ⟨o, -, hw⟩ | hw <;> exact hone _ hw
  · refine ⟨_, rfl, by simp, ?_⟩
    rcases mem_body_product.1 h with ⟨o, -, hw⟩ | hw <;> exact hone _ hw
  · refine ⟨_, rfl, by simp, ?_⟩
    rcases mem_body_atom.1 h with hw | hw | hw | hw | hw
    · exact hone _ hw
    · exact hone _ hw
    · exact hone _ hw
    · rw [hw] at hs
      simp only [List.mem_cons, List.not_mem_nil, or_false] at hs
      rcases hs with rfl | rfl | rfl <;> cases hsingle
    · exact hone _ hw

namespace Derivation

variable {line : List Char} {d e : Derivation} {ds es fs : List Derivation} {l : Layer}
  {n : Nonterminal} {u : Tree}

/-! ## Where parentheses are put -/

theorem isPartOf_lowerAll :
    u.IsPartOf (lowerAll line ds) ↔ ∃ d ∈ ds, u.IsPartOf (d.lower line) := by
  induction ds with
  | nil => simp [Tree.IsPartOf, lowerAll, Tree.nodesAll, Tree.leavesAll]
  | cons d ds ih =>
    rw [List.exists_mem_cons_iff, ← ih]
    simp only [Tree.IsPartOf, lowerAll, Tree.nodesAll_append, Tree.leavesAll_append,
      List.mem_append]
    tauto

theorem isPartOf_rule {r : Rule} (h : u.IsPartOf ((node (.rule r) ds).lower line)) :
    (node (.rule r) ds).lower line = [u] ∨ ∃ d ∈ ds, u.IsPartOf (d.lower line) := by
  rw [← isPartOf_lowerAll]
  simp only [Tree.IsPartOf, lower, Tree.nodesAll, Tree.nodes, Tree.leavesAll, Tree.leaves,
    List.append_nil, List.mem_cons] at h
  rcases h with (rfl | h) | h
  · exact .inl rfl
  · exact .inr (.inl h)
  · exact .inr (.inr h)

/-- **Each part of a derivation's parse trees is all of a layer**, unless it is all of the
derivation. -/
theorem Valid.exists_layer (hd : d.Valid) (hu : u.IsPartOf (d.lower line)) (hne : u.IsEnclosable) :
    (∃ f l, f.Occurs d ∧ Of (.layer l) f ∧ l ≠ .binding ∧ u.span = Tree.extent (f.lower line)) ∨
      d.symbol.isSingle ∧ d.lower line = [u] := by
  induction hd with
  | @leaf k t admits =>
    by_cases hk : k = .unknown
    · subst hk
      obtain rfl : u = .bad t.text t.span := by
        simpa [Tree.IsPartOf, lower, Tree.nodesAll, Tree.nodes, Tree.leavesAll, Tree.leaves] using hu
      exact .inr ⟨rfl, rfl⟩
    · obtain rfl : u = .token t.text t.span := by
        simpa [Tree.IsPartOf, lower, hk, Token.leaf, Tree.nodesAll, Tree.nodes, Tree.leavesAll,
          Tree.leaves] using hu
      cases hne
  | @node n ds hw hv ih =>
    -- a part that is all of one part of a node is all of the node, and this is a layer
    have hparts : (∃ d ∈ ds, u.IsPartOf (d.lower line)) →
        ∃ f l, f.Occurs (Derivation.node n ds) ∧ Of (.layer l) f ∧ l ≠ .binding ∧
          u.span = Tree.extent (f.lower line) := by
      rintro ⟨d, hd, hu⟩
      rcases ih d hd hu with ⟨f, l, hocc, hf⟩ | ⟨hsingle, hlow⟩
      · exact ⟨f, l, .part hd hocc, hf⟩
      obtain ⟨l, rfl, hl, hone⟩ := exists_layer_of_isSingle hw (List.mem_map_of_mem hd) hsingle
      obtain ⟨d', rfl, -⟩ := List.map_eq_singleton_iff.1 hone
      obtain rfl := List.mem_singleton.1 hd
      refine ⟨_, l, .here, ⟨rfl, .node hw hv⟩, hl, ?_⟩
      rw [lower, lowerAll_singleton, hlow, Tree.extent_singleton]
    cases n with
    | layer l =>
      rw [lower, isPartOf_lowerAll] at hu
      exact .inl (hparts hu)
    | rule r =>
      rcases isPartOf_rule hu with hlow | hu
      · cases r with
        | program =>
          obtain rfl := List.singleton_inj.1 hlow
          exact absurd rfl hne
        | expr =>
          obtain ⟨e, he, heq⟩ := of_expr_iff.1 ⟨rfl, .node hw hv⟩
          obtain rfl := (Derivation.node.inj heq).2
          refine .inl ⟨e, .sum, .part (by simp) .here, he, by simp, ?_⟩
          rw [lower, lowerAll_singleton, List.singleton_inj] at hlow
          rw [← hlow]
          rfl
        | _ => exact .inr ⟨rfl, hlow⟩
      · exact .inl (hparts hu)

/-! ## Reading what has parentheses around it -/

/-- Whether a derivation is read like another: it means the same, and the same is reported
about it. -/
structure ReadsLike (d e : Derivation) : Prop where
  exprs : ∀ line, Tree.exprs (d.lower line) = Tree.exprs (e.lower line)
  reports : ∀ line, d.reports line = e.reports line

/-- **Parentheses around a layer change nothing.** -/
theorem exists_group (hd : Of (.layer l) d) (hl : l ≠ .binding) (m n : ℕ) :
    ∃ e, Of (.layer l) e ∧ e.yield = ⟨.glyph .opening, m⟩ :: (d.yield ++ [⟨.glyph .closing, n⟩]) ∧
      e.ReadsLike d := by
  obtain ⟨f, hf, hfor⟩ := exists_sum_of_layer hd hl
  obtain ⟨e, he, hgroup⟩ := exists_layer_of_atom
    (of_atom_iff.2 ⟨_, .group m n (of_expr_iff.2 ⟨f, hf, rfl⟩), rfl⟩) hl
  have hoperand : (Symbol.layer l).isOperand := by cases l <;> first | rfl | exact absurd rfl hl
  refine ⟨e, he, ?_, fun line => ?_, fun line => ?_⟩
  · rw [hgroup.yield]
    simp [yield, yieldAll, hfor.yield]
  · -- what a layer means is at most one expression, so it is the first of them
    obtain ⟨x, hx⟩ := (hd.isOperand hoperand).hasMeaning line
    rw [hgroup.lower]
    simp [lower, lowerAll, hfor.lower, Token.leaf, Tree.exprs, Tree.expr?, Tree.isGlyph_glyph,
      Tree.Means.exprs_eq hx]
  · have hfirst : reports line f = reports line d := by rw [reports, hfor.lower, ← reports]
    have hexpr : reports line (Derivation.node (.rule .expr) [f]) = reports line d := by
      rw [reports_of_isTransparent (n := .rule .expr) trivial, List.flatMap_singleton, hfirst]
    rw [reports, hgroup.lower, ← reports, reports_of_isTransparent (n := .layer .atom) trivial]
    simp only [List.flatMap_cons, List.flatMap_nil, reports_paren, hexpr, List.nil_append,
      List.append_nil]

/-- What is read like a part of a node makes a node that is read like it. -/
theorem ReadsLike.node (h : d.ReadsLike e) (hv : (Derivation.node n (es ++ e :: fs)).Valid)
    (hp : (Derivation.node n (es ++ e :: fs)).symbol ≠ .rule .program)
    (he : ∀ k, e.symbol ≠ .terminal k) :
    (Derivation.node n (es ++ d :: fs)).ReadsLike (.node n (es ++ e :: fs)) := by
  have hall : ∀ line, Tree.exprs (lowerAll line (es ++ d :: fs)) =
      Tree.exprs (lowerAll line (es ++ e :: fs)) := by
    intro line
    have hpart := h.exprs line
    simp only [lowerAll_append, lowerAll, Tree.exprs_eq, List.flatMap_append] at hpart ⊢
    rw [hpart]
  rcases hv.node_cases hp with htransparent | ⟨rfl, t, heq⟩ | ⟨rfl, a, ds, b, heq⟩
  · refine ⟨fun line => ?_, fun line => ?_⟩
    · rcases n with (_ | _ | _ | _ | _ | _) | _
      · cases htransparent
      · simp only [lower, Tree.exprs, Tree.expr?, hall]
      · cases htransparent
      · simp only [lower, Tree.exprs, Tree.expr?, hall]
      · simp only [lower, Tree.exprs, Tree.expr?, hall]
      · cases htransparent
      · exact hall line
    · simp only [reports_of_isTransparent htransparent, List.flatMap_append, List.flatMap_cons,
        h.reports]
  · obtain ⟨-, hleaf, -⟩ := singleton_eq_append_cons heq.symm
    exact absurd (by rw [hleaf]; rfl) (he .name)
  · have hparen : ∀ g k, e ≠ paren g k := fun g k h => he (.glyph g) (by rw [h]; rfl)
    obtain ⟨es, fs, rfl, rfl⟩ := exists_of_append_cons_eq heq (hparen _ _) (hparen _ _)
    refine ⟨fun line => rfl, fun line => ?_⟩
    have hparts : ∀ f : Derivation, paren .opening a :: es ++ f :: (fs ++ [paren .closing b]) =
        paren .opening a :: (es ++ f :: fs ++ [paren .closing b]) := by simp
    rw [hparts, hparts, reports_letForm, reports_letForm]

/-- **What is read like a part of a derivation** makes a derivation that is read like it. -/
theorem Context.readsLike_fill {c : Context} (h : d.ReadsLike e) (hv : (c.fill e).Valid)
    (hp : (c.fill e).symbol ≠ .rule .program) (he : ∀ k, e.symbol ≠ .terminal k) :
    (c.fill d).ReadsLike (c.fill e) := by
  induction c with
  | hole => exact h
  | node n es c fs ih =>
    have hparts := hv.symbol_part_ne
    have hnode := hv
    cases hv with
    | node _ hv =>
      have hc := ih (hv _ (by simp)) (hparts _ (by simp))
      exact hc.node hnode hp (symbol_fill_ne he)

/-- **Parentheses around a layer of an expression**, with all other tokens moved. -/
theorem Context.exists_group_fill {c : Context} {f : Derivation} (hd : Of (.rule .expr) (c.fill f))
    (hf : Of (.layer l) f) (hl : l ≠ .binding) (g : ℕ → ℕ) (m n : ℕ) :
    ∃ e, Of (.rule .expr) e ∧
      e.yield = c.before.map (Token.move g) ++ ⟨.glyph .opening, m⟩ ::
        (f.yield.map (Token.move g) ++ ⟨.glyph .closing, n⟩ :: c.after.map (Token.move g)) ∧
      e.ReadsLike ((c.fill f).move g) := by
  have hf' : Of (.layer l) (f.move g) := ⟨(symbol_move g f).trans hf.symbol, hf.valid.move g⟩
  have hd' : Of (.rule .expr) ((c.move g).fill (f.move g)) := by
    rw [← c.move_fill g f]
    exact ⟨(symbol_move g _).trans hd.symbol, hd.valid.move g⟩
  obtain ⟨k, hk, hyield, hreads⟩ := exists_group hf' hl m n
  refine ⟨(c.move g).fill k, ?_, ?_, ?_⟩
  · rw [← hd'.symbol]
    exact of_fill hd'.valid (hf'.symbol ▸ hk)
  · rw [yield_fill, hyield, before_move, after_move, yield_move]
    simp
  · rw [c.move_fill g f]
    exact readsLike_fill hreads hd'.valid (by rw [hd'.symbol]; nofun)
      fun k => by rw [hf'.symbol]; nofun

end Derivation

end Grammar

end ArithLine

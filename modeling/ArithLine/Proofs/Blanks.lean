import ArithLine.Proofs.Grammar.Blanks
import ArithLine.Proofs.Operand

/-!
# Blanks between tokens carry no meaning

* `Source.ReadsSame`: two sources are read the same, up to spans.
* `Source.readsSame_of_lexemes`: so are any two that have the same lexemes.
* `Source.ignoresBlanks`: blanks may be added anywhere but inside a token, and outside of let
  forms all of them may be left out.
-/

namespace ArithLine

open Grammar Derivation

/-- Whether a byte is not strictly inside a leaf of a tree. -/
def Tree.IsGap (t : Tree) (n : ℕ) : Prop :=
  ∀ l ∈ t.leaves, ¬ (l.span.start < n ∧ n < l.span.stop)

namespace Source

variable {s s' : Source} {t t' : Tree}

/-- Whether two sources are read the same, up to spans. -/
structure ReadsSame (s s' : Source) : Prop where
  tree : ∃ t t', s.tree = .ok t ∧ s'.tree = .ok t' ∧ t'.bare = t.bare
  program : (∃ p, s.program = .ok p ∧ s'.program = .ok p) ∨
    ∃ n n', s.program = .error (.noProgram s n) ∧ s'.program = .error (.noProgram s' n') ∧
      n'.found = n.found
  diagnostics : s'.diagnostics.map Diagnostic.bare = s.diagnostics.map Diagnostic.bare

/-- Nothing but the spans in a tree tells where its tokens stand. -/
theorem readsSame_of_bare (h : s.tree = .ok t) (h' : s'.tree = .ok t') (hbare : t'.bare = t.bare) :
    s.ReadsSame s' := by
  obtain ⟨ts, a, b, m, rfl, hm⟩ := exists_means_of_ofLine (tree_eq_ok_iff.1 h)
  obtain ⟨v, b', rfl, hv⟩ := Tree.exists_node_of_bare hbare
  have hexpr : v.expr? = (Tree.node .expr ts a).expr? := by
    rw [← Tree.expr?_bare, hv, Tree.expr?_bare]
  have htext : v.text = (Tree.node .expr ts a).text := by
    rw [← Tree.text_bare, hv, Tree.text_bare]
  refine ⟨⟨_, _, h, h', hbare⟩, ?_, ?_⟩
  · rcases program_cases h h' hexpr with hp | ⟨hn, hn'⟩
    · exact .inl hp
    · exact .inr ⟨_, _, hn, hn', htext⟩
  · rw [diagnostics_eq_of_root h, diagnostics_eq_of_root h', ← Tree.diagnostics_bare, hv,
      Tree.diagnostics_bare]

/-- **A text with the same lexemes is read the same.** -/
theorem readsSame_of_lexemes {d : Derivation} {us : List Token} {cs : List Char}
    (hd : Derives s.content d) (hus : us.map Token.lexeme = d.yield.map Token.lexeme)
    (hcov : Covers 0 us cs) : s.ReadsSame ⟨s.name, .ofList cs⟩ := by
  obtain ⟨d', hd', -, hbare⟩ := Derives.of_placed ⟨hd.symbol, hd.valid⟩ hus hcov
  obtain ⟨t, ht, hlow⟩ := hd.ofLine
  obtain ⟨t', ht', hlow'⟩ := hd'.ofLine
  have h := hbare (String.ofList cs).toList
  rw [hlow', bare_lower s.content.toList, hlow] at h
  exact readsSame_of_bare (tree_eq_ok_iff.2 ht) (tree_eq_ok_iff.2 ht') (List.singleton_inj.1 h)

/-- What adding and removing blanks does to a source with a given tree: nothing. -/
structure IgnoresBlanks (s : Source) (t : Tree) : Prop where
  /-- Blanks may be added at any bytes that are not strictly inside a leaf. -/
  added : ∀ cs, Spread t.IsGap 0 s.content.toList cs → s.ReadsSame ⟨s.name, .ofList cs⟩
  /-- The text of the tree is the line without its blanks. -/
  text : t.text = .ofList (s.content.toList.filter (!isBlank ·))
  /-- Without a let form all blanks may be left out. -/
  removed : (∀ u ∈ t.nodes, u.rule? ≠ some .letForm) → s.ReadsSame ⟨s.name, t.text⟩

/-- **Blanks between tokens carry no meaning.** -/
theorem ignoresBlanks (h : s.tree = .ok t) : s.IgnoresBlanks t := by
  have hline := tree_eq_ok_iff.1 h
  obtain ⟨d, hd, hlow⟩ := exists_derives_of_ofLine hline
  have htext := text_eq_of_ofLine hline
  refine ⟨fun cs hcs => ?_, htext, fun hlet => ?_⟩
  · have hgap : ∀ n, t.IsGap n → ∀ u ∈ d.yield, ¬ (u.start < n ∧ n < u.stop) := by
      intro n hn u hu hin
      obtain ⟨l, hl, -, hspan⟩ := exists_leaf_of_mem_yield hlow u hu
      exact hn l hl (by rwa [hspan])
    obtain ⟨us, hus, hcov⟩ := hd.covers.exists_spread hcs hgap 0
    exact readsSame_of_lexemes hd hus hcov
  · obtain ⟨e, he, rfl⟩ := of_program_iff.1 ⟨hd.symbol, hd.valid⟩
    have hnodes : ∀ u ∈ Tree.nodesAll (e.lower s.content.toList), u.rule? ≠ some .letForm := by
      intro u hu
      refine hlet u ?_
      have hmem := nodesAll_lower_rule s.content.toList .program [e]
      rw [hlow, Tree.nodesAll, Tree.nodesAll, List.append_nil, lowerAll_singleton] at hmem
      exact hmem ▸ List.mem_cons_of_mem _ hu
    have hsep := (he.isOperand rfl).isSeparated hnodes
    rw [← yieldAll_singleton, ← yield] at hsep
    obtain ⟨us, hus, hcov⟩ := hd.covers.exists_packed hsep 0
    rw [htext]
    exact readsSame_of_lexemes hd hus hcov

/-- The difference `x -1` is read the same without its blank, and with more of them. -/
theorem ignoresBlanks_difference : ∃ t, (Source.input "x -1").tree = .ok t ∧
    (∀ u ∈ t.nodes, u.rule? ≠ some .letForm) ∧
    (Source.input "x -1").ReadsSame ⟨"<input>", t.text⟩ ∧
    (Source.input "x -1").IgnoresBlanks t := by
  obtain ⟨t, ht, hlet⟩ : ∃ t, (Source.input "x -1").tree = .ok t ∧
      ∀ u ∈ t.nodes, u.rule? ≠ some .letForm := ⟨_, rfl, by decide⟩
  have h := ignoresBlanks ht
  exact ⟨t, ht, hlet, h.removed hlet, h⟩

end Source

end ArithLine

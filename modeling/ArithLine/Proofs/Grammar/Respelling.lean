import ArithLine.Proofs.Grammar.Shape

/-!
# Lines with the same derivation

A derivation says nothing of where its tokens stand.

* `Tree.bare`: a parse tree without its spans.
* `Valid.exists_placed`: the tokens of a derivation may stand anywhere. Its parse trees are
  the same then but for their spans.
-/

namespace ArithLine

open Grammar Derivation

namespace Tree

mutual

/-- A parse tree without its spans. -/
def bare : Tree → Tree
  | node r ts _ => node r (bareAll ts) .zero
  | token s _ => token s .zero
  | bad s _ => bad s .zero

/-- Some parse trees without their spans. -/
def bareAll : List Tree → List Tree
  | [] => []
  | t :: ts => t.bare :: bareAll ts

end

theorem bareAll_eq (ts : List Tree) : bareAll ts = ts.map bare := by
  induction ts with
  | nil => rfl
  | cons t ts ih => rw [bareAll, ih, List.map_cons]

end Tree

namespace Grammar.Derivation

mutual

/-- The line of a derivation tells the spans of its parse trees and nothing else. -/
theorem bare_lower (line line' : List Char) : ∀ d : Derivation,
    (d.lower line').map Tree.bare = (d.lower line).map Tree.bare
  | leaf _ _ => rfl
  | node (.layer _) ds => bare_lowerAll line line' ds
  | node (.rule _) ds => by
    simp only [lower, List.map_singleton, Tree.bare, Tree.bareAll_eq, bare_lowerAll line line' ds]

/-- The line of some derivations tells the spans of their parse trees and nothing else. -/
theorem bare_lowerAll (line line' : List Char) : ∀ ds : List Derivation,
    (lowerAll line' ds).map Tree.bare = (lowerAll line ds).map Tree.bare
  | [] => rfl
  | d :: ds => by
    rw [lowerAll, lowerAll, List.map_append, List.map_append, bare_lower line line' d,
      bare_lowerAll line line' ds]

end

variable {d : Derivation}

/-- **The tokens of a derivation may stand anywhere.** -/
theorem Valid.exists_placed (hd : d.Valid) (us : List Token)
    (hus : us.map Token.lexeme = d.yield.map Token.lexeme) :
    ∃ d', Of d.symbol d' ∧ d'.yield = us ∧
      ∀ line, (d'.lower line).map Tree.bare = (d.lower line).map Tree.bare := by
  induction hd generalizing us with
  | @leaf k t admits =>
    obtain ⟨u, rfl, hu⟩ := List.map_eq_singleton_iff.1 hus
    refine ⟨Derivation.leaf k u, of_terminal_iff.2 ⟨u, hu ▸ admits, rfl⟩, rfl, fun line => ?_⟩
    have htext : u.text = t.text := by rw [Token.text, hu, Token.text]
    by_cases hk : k = .unknown <;> simp [lower, hk, htext, Tree.bare, Token.leaf]
  | @node n ds hw hv ih =>
    -- the tokens of the parts, one part after another
    have hparts : ∃ es, List.Forall₂ Of (ds.map symbol) es ∧ yieldAll es = us ∧
        ∀ line, (lowerAll line es).map Tree.bare = (lowerAll line ds).map Tree.bare := by
      clear hw hv
      induction ds generalizing us with
      | nil =>
        obtain rfl := List.map_eq_nil_iff.1 hus
        exact ⟨[], .nil, rfl, fun _ => rfl⟩
      | cons d ds ihd =>
        rw [yield, yieldAll, List.map_append] at hus
        obtain ⟨us₁, us₂, rfl, h₁, h₂⟩ := List.map_eq_append_iff.1 hus
        obtain ⟨d', hd', rfl, hbare⟩ := ih d (by simp) us₁ h₁
        obtain ⟨es, hes, rfl, hbares⟩ := ihd (fun e he => ih e (by simp [he])) us₂ h₂
        refine ⟨d' :: es, .cons hd' hes, rfl, fun line => ?_⟩
        rw [lowerAll, lowerAll, List.map_append, List.map_append, hbare line, hbares line]
    obtain ⟨es, hes, hyield, hbare⟩ := hparts
    refine ⟨Derivation.node n es, of_nonterminal_iff.2 ⟨_, hw, es, hes, rfl⟩, hyield,
      fun line => ?_⟩
    cases n with
    | layer l => exact hbare line
    | rule r => simp [lower, Tree.bare, Tree.bareAll_eq, hbare line]

end Grammar.Derivation

/-- Tokens with the lexemes of a derivation of a program make a derivation of the text that
they cover. -/
theorem Derives.of_placed {d : Derivation} {us : List Token} {cs : List Char}
    (hd : Of (.rule .program) d) (hus : us.map Token.lexeme = d.yield.map Token.lexeme)
    (hcov : Covers 0 us cs) : ∃ d', Derives (.ofList cs) d' ∧ d'.yield = us ∧
      ∀ line, (d'.lower line).map Tree.bare = (d.lower line).map Tree.bare := by
  obtain ⟨d', hd', hyield, hbare⟩ := hd.valid.exists_placed us hus
  rw [hd.symbol] at hd'
  exact ⟨d', ⟨hd'.symbol, hd'.valid, by rwa [String.toList_ofList, hyield]⟩, hyield, hbare⟩

end ArithLine

import ArithLine.Proofs.Grammar.Unambiguous
import ArithLine.Proofs.Meaning

/-!
# A conversion accounts for all of a tree

* `IsOperand.hasMeaning`: the parse trees of an operand mean an expression or nothing, so
  the conversion meets no other shapes than those that `Tree.Means` knows.
* `Tree.ConvertsTo`: the leaves, the chains and the diagnostics of a conversion, each from
  the tree that is converted.
* `Source.convertsTo`: this holds of every source that is read.
-/

namespace ArithLine

open Grammar Derivation

namespace Grammar.Derivation

variable {line : List Char}

theorem isLiteral_of_admits {l : Lexeme} (h : Terminal.numeral.Admits l) :
    Numeral.IsLiteral l.chars := by
  match l, h with
  | .word w, h => exact ⟨w, h, .inl rfl⟩
  | .signed ds, h => exact ⟨ds, h, .inr rfl⟩

/-- What the parse trees of a symbol mean: those of an operand mean an expression or nothing,
and those of an expression are one node around such trees. -/
def HasMeaning (s : Symbol) (ts : List Tree) : Prop :=
  if s = .rule .expr then ∃ us sp m, ts = [.node .expr us sp] ∧ Tree.Means us m
  else ∃ m, Tree.Means ts m

/-- A chain of operands that have a meaning has one. -/
theorem exists_means_chain {o : Op} {k : ℕ} {ds : List Derivation} (sp : Span)
    (hds : List.Forall₂ Of (.layer (operand o) :: linkWord o k) ds)
    (h : ∀ d ∈ ds, Of (.layer (operand o)) d → ∃ m, Tree.Means (d.lower line) m) :
    ∃ m, Tree.Means [.node (.chain o) (lowerAll line ds) sp] m := by
  obtain ⟨es, -, hes, hsplit⟩ := exists_operands line hds
  have hall : ∀ e ∈ es, ∃ m, Tree.Means (e.lower line) m := fun e he =>
    h e (hes e he).1 (hes e he).2
  obtain ⟨ms, hms⟩ : ∃ ms, List.Forall₂ Tree.Means (es.map (lower line)) ms := by
    clear hsplit hes
    induction es with
    | nil => exact ⟨[], .nil⟩
    | cons e es ihes =>
      rw [List.forall_mem_cons] at hall
      obtain ⟨m, hm⟩ := hall.1
      obtain ⟨ms, hms⟩ := ihes hall.2
      exact ⟨m :: ms, .cons hm hms⟩
  rw [← hsplit] at hms
  exact ⟨_, .chain sp hms.length_eq fun p hp => List.forall₂_zip hms hp⟩

/-- **The parse trees of an operand have a meaning.** -/
theorem IsOperand.hasMeaning {s : Symbol} {d : Derivation} (h : IsOperand s d)
    (line : List Char) : HasMeaning s (d.lower line) := by
  induction h with
  | unknown t => exact ⟨_, .unknown _ _⟩
  | @numeral t ht =>
    refine ⟨_, .number ?_⟩
    rw [Token.text, String.toList_ofList]
    exact isLiteral_of_admits ht
  | var hw n => exact ⟨_, .name _ _ _⟩
  | letForm ds => exact ⟨_, .letForm _ _⟩
  | @chain o k ds hds h ih => exact exists_means_chain _ hds ih
  | @layer l s d hw h ih =>
    -- no layer is just an expression, so its part means something as it stands
    have hs : s ≠ .rule .expr := by
      rintro rfl
      cases l with
      | sum => rcases mem_body_sum.1 hw with ⟨o, -, hs⟩ | hs <;> cases hs
      | product => rcases mem_body_product.1 hw with ⟨o, -, hs⟩ | hs <;> cases hs
      | atom => rcases mem_body_atom.1 hw with hs | hs | hs | hs | hs <;> cases hs
      | binding => cases mem_body_binding.1 hw
    rw [HasMeaning, if_neg hs] at ih
    rw [lower, lowerAll_singleton]
    exact ih
  | @group m n d h ih =>
    obtain ⟨us, sp, x, hlow, hx⟩ := ih
    simp only [lower, lowerAll, hlow]
    exact ⟨x, .group _ _ _ hx⟩
  | @expr d h ih =>
    obtain ⟨m, hm⟩ := ih
    rw [lower, lowerAll_singleton]
    exact ⟨_, _, m, rfl, hm⟩

end Grammar.Derivation

/-- A tree's conversion to an expression, or to none, accounts for all of it. -/
structure Tree.ConvertsTo (t : Tree) (e : Option Expr) (ds : List Diagnostic) : Prop where
  /-- The leaves of the expression stand for the tree's items, but for its let forms. -/
  leaves : e.toList.flatMap Expr.leaves = (t.items .program).filterMap Item.expr?
  /-- The chains of the expression are those of the tree without the operands that are
  let forms. -/
  chains : List.Forall₂ (fun c x => c.1 = x.1 ∧ Tree.Keeps c.2 x.2) t.chains
    (e.toList.flatMap Expr.chains)
  /-- There is one diagnostic for each item that is worth one. -/
  diagnostics : ds = (t.items .program).filterMap Item.diagnostic?

/-- The tree of a line is a program around an expression that has a meaning. -/
theorem exists_means_of_ofLine {line : String} {t : Tree} (h : Tree.ofLine line = .ok t) :
    ∃ ts sp sp' m, t = .node .program [.node .expr ts sp] sp' ∧ Tree.Means ts m := by
  obtain ⟨d, hd, hlow⟩ := exists_derives_of_ofLine h
  obtain ⟨e, he, rfl⟩ := of_program_iff.1 ⟨hd.symbol, hd.valid⟩
  obtain ⟨ts, sp, m, hexpr, hm⟩ := (he.isOperand rfl).hasMeaning line.toList
  obtain rfl := List.singleton_inj.1 hlow
  exact ⟨ts, sp, _, m, by rw [lowerAll_singleton, hexpr], hm⟩

/-- What a source means, if its tree is a program around an expression. -/
theorem Source.body_eq {s : Source} {ts : List Tree} {sp sp' : Span}
    (h : s.tree = .ok (.node .program [.node .expr ts sp] sp')) :
    s.program.toOption.map Program.body = (Tree.exprs ts).head? := by
  rw [Source.program, h]
  change (Except.mapError _ (Tree.program _)).toOption.map Program.body = _
  rw [Tree.program, Tree.expr?]
  cases (Tree.exprs ts).head? <;> rfl

/-- What is reported about a source, if its tree is a program around an expression. -/
theorem Source.diagnostics_eq {s : Source} {ts : List Tree} {sp sp' : Span}
    (h : s.tree = .ok (.node .program [.node .expr ts sp] sp')) :
    s.diagnostics = (Tree.notesAll ts).filterMap Note.diagnostic? := by
  rw [Source.diagnostics, h]
  exact List.filterMap_cons_none rfl

/-- **A conversion accounts for all of a tree.** -/
theorem Source.convertsTo {s : Source} {t : Tree} (h : s.tree = .ok t) :
    t.ConvertsTo (s.program.toOption.map Program.body) s.diagnostics := by
  obtain ⟨ts, sp, sp', m, rfl, hm⟩ := exists_means_of_ofLine (Source.tree_eq_ok_iff.1 h)
  have hr : Rule.expr ≠ .numeral ∧ Rule.expr ≠ .var := by simp
  have hbody : s.program.toOption.map Program.body = m := by
    rw [Source.body_eq h, hm.exprs_eq]
    cases m <;> rfl
  rw [hbody, Source.diagnostics_eq h]
  constructor
  · rw [hm.leaves_eq hr]
    simp [Tree.items, Tree.itemsAll]
  · simpa [Tree.chains, Tree.chainsAll] using hm.chains
  · rw [hm.diagnostics_eq hr]
    simp [Tree.items, Tree.itemsAll]

theorem Source.convertsTo_malformed : ∃ s t,
    s = Source.input "(x-99999999999999999999)*(let ((a é)) 2)*é*-7" ∧ s.tree = .ok t ∧
      t.ConvertsTo (s.program.toOption.map Program.body) s.diagnostics := by
  obtain ⟨t, ht⟩ : ∃ t,
    (Source.input "(x-99999999999999999999)*(let ((a é)) 2)*é*-7").tree = .ok t := ⟨_, rfl⟩
  exact ⟨_, t, rfl, ht, Source.convertsTo ht⟩

end ArithLine

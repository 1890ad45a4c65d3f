import ArithLine.Proofs.Conversion
import ArithLine.Proofs.Grammar.Cover
import ArithLine.Proofs.Spans

/-!
# How reading a source ends

A source is refused, means nothing or means a program, and its tree tells which.

* `Tree.EnclosesLet`: a let form in any number of parentheses. Nothing else means nothing,
  so no other absence inside a tree reaches the top.
* `Tree.EnclosesLet.exists_yield`: such an expression starts and ends with a parenthesis, so
  its span has no blank at either end.
* `Source.Outcomes`: each of the three ways to end with what it reports.
-/

namespace ArithLine

open Grammar Derivation

/-! ## Let forms in parentheses -/

namespace Tree

/-- Whether some trees are a let form with a given span, in any number of parentheses. -/
inductive EnclosesLet (sp : Span) : List Tree → Prop
  | letForm (ts : List Tree) : EnclosesLet sp [node .letForm ts sp]
  | group {ts : List Tree} (a b c : Span) (h : EnclosesLet sp ts) :
    EnclosesLet sp [token "(" a, node .expr ts b, token ")" c]

theorem isLet_iff {ts : List Tree} : IsLet ts ↔ ∃ sp, EnclosesLet sp ts := by
  constructor
  · intro h
    induction h with
    | letForm ts sp => exact ⟨sp, .letForm ts⟩
    | group a b c _ ih =>
      obtain ⟨sp, h⟩ := ih
      exact ⟨sp, .group a b c h⟩
  · rintro ⟨sp, h⟩
    induction h with
    | letForm ts => exact .letForm ts sp
    | group a b c _ ih => exact .group a b c ih

/-- Nothing inside a let form is reported, and nothing about the parentheses around it. -/
theorem EnclosesLet.diagnostics_eq {sp : Span} {ts : List Tree} (h : EnclosesLet sp ts) :
    (notesAll ts).filterMap Note.diagnostic? = [.unhandledRule .letForm sp] := by
  induction h with
  | letForm ts => rfl
  | group a b c _ ih =>
    simpa [notesAll, notes, Note.diagnostic?, List.filterMap_cons, show isGlyph "(" by decide,
      show isGlyph ")" by decide] using ih

/-- A let form in parentheses is no chain, so the atom that it is makes up all of an expression. -/
theorem EnclosesLet.exists_atom {line : List Char} {d : Derivation} {sp : Span}
    (h : EnclosesLet sp (d.lower line)) (hd : Of (.layer .sum) d) :
    ∃ ds, IsAtom ds ∧ lowerAll line ds = d.lower line ∧ yieldAll ds = d.yield := by
  obtain ⟨e, ⟨o, -, he⟩ | he, rfl⟩ := of_sum_iff.1 hd
  · obtain ⟨k, f, fs, -, -, rfl⟩ := of_chain_iff.1 he
    rw [lower, lowerAll_singleton] at h
    cases h
  obtain ⟨f, ⟨o, -, hf⟩ | hf, rfl⟩ := of_product_iff.1 he
  · obtain ⟨k, g, gs, -, -, rfl⟩ := of_chain_iff.1 hf
    rw [lower, lowerAll_singleton, lower, lowerAll_singleton] at h
    cases h
  obtain ⟨ds, hds, rfl⟩ := of_atom_iff.1 hf
  exact ⟨ds, hds, by simp [lower, lowerAll], by simp [yield, yieldAll]⟩

/-- A let form covers the bytes from its first parenthesis to its last. -/
theorem exists_lower_letForm (line : List Char) (a b c : ℕ) (bs : List Derivation) (m : ℕ)
    (e : Derivation) (n : ℕ) : ∃ ts,
    (Derivation.node (.rule .letForm) (letHead a b c ++ (bs ++ letTail m e n))).lower line =
      [.node .letForm ts ⟨a, n + 1⟩] := by
  have hparts : ∃ ts, lowerAll line (letHead a b c ++ (bs ++ letTail m e n)) =
      Token.leaf ⟨.glyph .opening, a⟩ :: (ts ++ [Token.leaf ⟨.glyph .closing, n⟩]) := by
    refine ⟨Token.leaf ⟨.word Word.reserved, b⟩ :: Token.leaf ⟨.glyph .opening, c⟩ ::
      (lowerAll line bs ++ Token.leaf ⟨.glyph .closing, m⟩ :: e.lower line), ?_⟩
    simp [letHead, letTail, lowerAll, lower]
  obtain ⟨ts, hts⟩ := hparts
  refine ⟨Token.leaf ⟨.glyph .opening, a⟩ :: (ts ++ [Token.leaf ⟨.glyph .closing, n⟩]), ?_⟩
  rw [lower, hts, ← extent_parens a n ts]
  rfl

/-- An expression that is a let form in parentheses starts and ends with a parenthesis. -/
theorem EnclosesLet.exists_yield {line : List Char} {d : Derivation} {ts : List Tree}
    {sp sp' : Span} (h : EnclosesLet sp ts) (hd : Of (.rule .expr) d)
    (hlow : d.lower line = [.node .expr ts sp']) : ∃ m us n,
      d.yield = ⟨.glyph .opening, m⟩ :: (us ++ [⟨.glyph .closing, n⟩]) ∧ sp' = ⟨m, n + 1⟩ := by
  obtain ⟨e, he, rfl⟩ := of_expr_iff.1 hd
  rw [lower, lowerAll_singleton, List.singleton_inj] at hlow
  obtain ⟨-, rfl, rfl⟩ := Tree.node.inj hlow
  obtain ⟨ds, hds, hlow, hyield⟩ := h.exists_atom he
  change ∃ m us n, _ ∧ Tree.extent (e.lower line) = _
  rw [yield, yieldAll_singleton, ← hyield]
  rw [← hlow] at h ⊢
  cases hds with
  | letForm hlet =>
    obtain ⟨a, b, c, bs, m, e, n, -, -, -, rfl⟩ := of_letForm_iff.1 hlet
    refine ⟨a, ⟨.word Word.reserved, b⟩ :: ⟨.glyph .opening, c⟩ ::
      (yieldAll bs ++ ⟨.glyph .closing, m⟩ :: e.yield), n, ?_, ?_⟩
    · simp [yield, yieldAll, letHead, letTail]
    · obtain ⟨ts, hts⟩ := exists_lower_letForm line a b c bs m e n
      rw [lowerAll_singleton, hts]
      rfl
  | @group e m n he =>
    refine ⟨m, e.yield, n, by simp [yield, yieldAll], ?_⟩
    have hlast : lowerAll line [leaf (.glyph .opening) ⟨.glyph .opening, m⟩, e,
        leaf (.glyph .closing) ⟨.glyph .closing, n⟩] =
          Token.leaf ⟨.glyph .opening, m⟩ :: (e.lower line ++ [Token.leaf ⟨.glyph .closing, n⟩]) := by
      simp [lowerAll, lower]
    rw [hlast, extent_parens]
  | numeral ht =>
    obtain ⟨t, -, rfl⟩ := of_numeral_iff.1 ht
    cases h
  | var hv =>
    obtain ⟨w, n, -, rfl⟩ := of_var_iff.1 hv
    cases h
  | unknown hu =>
    obtain ⟨w, n, -, rfl⟩ := of_unknown_iff.1 hu
    cases h

end Tree

/-! ## Labels -/

/-- Whether a label covers a line from the first character that is no blank to the last. -/
def Label.Trims (l : Label) (line : String) : Prop :=
  ∃ before middle after, line.toList = before ++ (middle ++ after) ∧
    before.all isBlank ∧ after.all isBlank ∧
    (∃ c ∈ middle.head?, isBlank c = false) ∧ (∃ c ∈ middle.getLast?, isBlank c = false) ∧
    l.offset = byteLength before ∧ l.length = byteLength middle

/-- Tokens from one parenthesis to another leave only blanks outside of these. -/
theorem Covers.trims {m n : ℕ} {us : List Token} {line : String} (text : String)
    (h : Covers 0 (⟨.glyph .opening, m⟩ :: (us ++ [⟨.glyph .closing, n⟩])) line.toList) :
    Label.Trims ⟨text, m, n + 1 - m⟩ line := by
  rw [← List.nil_append (_ :: _)] at h
  obtain ⟨before, rest, hline, hm, hbefore, -, hrest, -⟩ := h.split
  obtain ⟨inner, after, rfl, hn, -, -, hafter, -⟩ := hrest.split
  refine ⟨before, '(' :: (inner ++ [')']), after, ?_, hbefore.all_isBlank, hafter.all_isBlank,
    ⟨'(', rfl, rfl⟩, ⟨')', ?_, rfl⟩, ?_, ?_⟩
  · simpa [Lexeme.chars, Glyph.char] using hline
  · rw [← List.cons_append, List.getLast?_concat]
    rfl
  · simpa using hm
  · have hlen : Token.stop ⟨.glyph .opening, m⟩ = m + 1 := rfl
    simp only [hlen] at hn
    simp
    omega

/-! ## The three ways to end -/

namespace Source

variable {s : Source}

/-- Whether a source is read as a let form with a given span, in any number of parentheses. -/
def IsLet (s : Source) (sp : Span) : Prop :=
  ∃ ts a b, s.tree = .ok (.node .program [.node .expr ts a] b) ∧ Tree.EnclosesLet sp ts

/-- How reading a source ends, after other diagnostics have been reported. -/
structure Outcomes (s : Source) (j : Journal) : Prop where
  ends : (∃ r, (s.read j).1 = .error (.rejected s r)) ∨
    (∃ n, (s.read j).1 = .error (.noProgram s n)) ∨ ∃ p, (s.read j).1 = .ok p
  rejected_iff : ∀ r, (s.read j).1 = .error (.rejected s r) ↔ s.tree = .error (.rejected s r)
  /-- Nothing is reported about a source that is refused. -/
  rejected : ∀ f, s.tree = .error f → (s.read j).2 = j
  noProgram_iff : (∃ n, (s.read j).1 = .error (.noProgram s n)) ↔ ∃ sp, s.IsLet sp
  /-- Of a let form nothing is reported but itself, and it is shown without its blanks. -/
  noProgram : ∀ sp n, s.IsLet sp → (s.read j).1 = .error (.noProgram s n) →
    (s.read j).2 = j.report (.unhandledRule .letForm sp) ∧
      n.found = .ofList (s.content.toList.filter (!isBlank ·)) ∧
      ∃ l, (Failure.noProgram s n).label? = some l ∧ l.Trims s.content
  ok_iff : (∃ p, (s.read j).1 = .ok p) ↔ (∃ t, s.tree = .ok t) ∧ ¬ ∃ sp, s.IsLet sp
  /-- No other rule than that of let forms is ever reported. -/
  unhandled : ∀ r sp, .unhandledRule r sp ∈ s.diagnostics → r = .letForm
  /-- A tree that is read is a program with a body. -/
  root : ∀ t, s.tree = .ok t → ∃ u us sp, t = .node .program (u :: us) sp

theorem read_of_error {f : Failure} (h : s.tree = .error f) (j : Journal) :
    s.read j = (.error f, j) := by
  have hprogram : s.program = .error f := by
    unfold program
    rw [h]
    rfl
  have hdiagnostics : s.diagnostics = [] := by
    unfold diagnostics
    rw [h]
  simp [read, hprogram, hdiagnostics, Journal.reportAll]

section Accepted

variable {ts : List Tree} {m : Option Expr} {a b : Span}

/-- What means nothing fails with its whole expression. -/
theorem program_of_means (h : s.tree = .ok (.node .program [.node .expr ts a] b))
    (hm : Tree.Means ts m) :
    s.program = m.elim (.error (.noProgram s ⟨(Tree.node .expr ts a).text, a⟩)) fun e => .ok ⟨e⟩ := by
  unfold program
  rw [h]
  change (Tree.program _).mapError _ = _
  rw [Tree.program, Tree.expr?, hm.exprs_eq]
  cases m <;> rfl

/-- A source is read as a let form in parentheses just if it means nothing. -/
theorem exists_isLet_iff (h : s.tree = .ok (.node .program [.node .expr ts a] b))
    (hm : Tree.Means ts m) : (∃ sp, s.IsLet sp) ↔ m = none := by
  rw [hm.eq_none_iff, Tree.isLet_iff]
  constructor
  · rintro ⟨sp, us, a', b', ht, hlet⟩
    rw [h] at ht
    obtain ⟨-, hts, -⟩ := Tree.node.inj (Except.ok.inj ht)
    obtain ⟨-, rfl, -⟩ := Tree.node.inj (List.singleton_inj.1 hts)
    exact ⟨sp, hlet⟩
  · rintro ⟨sp, hlet⟩
    exact ⟨sp, ts, a, b, h, hlet⟩

/-- Of the nodes that a source can have, only let forms are reported. -/
theorem unhandledRule_eq (h : s.tree = .ok (.node .program [.node .expr ts a] b))
    (hm : Tree.Means ts m) {r : Rule} {sp : Span} (hd : .unhandledRule r sp ∈ s.diagnostics) :
    r = .letForm := by
  have hr : Rule.expr ≠ .numeral ∧ Rule.expr ≠ .var := by simp
  rw [diagnostics_eq h, hm.diagnostics_eq hr, List.mem_filterMap] at hd
  obtain ⟨i, -, hi⟩ := hd
  cases i with
  | number x xsp =>
    simp only [Item.diagnostic?] at hi
    split at hi
    · cases hi
    · cases hi
  | name x xsp => cases hi
  | unknown x xsp => cases hi
  | letForm xsp => exact (Diagnostic.unhandledRule.inj (Option.some.inj hi)).1.symm

end Accepted

/-- What is shown of a source that is read as a let form in parentheses. -/
theorem IsLet.read {sp : Span} (h : s.IsLet sp) (j : Journal) :
    ∃ n, s.read j = (.error (.noProgram s n), j.report (.unhandledRule .letForm sp)) ∧
      n.found = .ofList (s.content.toList.filter (!isBlank ·)) ∧
      ∃ l, (Failure.noProgram s n).label? = some l ∧ l.Trims s.content := by
  obtain ⟨ts, a, b, ht, hlet⟩ := h
  have hline := tree_eq_ok_iff.1 ht
  obtain ⟨us, c, c', m, heq, hm⟩ := exists_means_of_ofLine hline
  obtain ⟨-, hus, -⟩ := Tree.node.inj heq
  obtain ⟨-, rfl, rfl⟩ := Tree.node.inj (List.singleton_inj.1 hus)
  obtain rfl : m = none := (exists_isLet_iff ht hm).1 ⟨sp, ts, a, b, ht, hlet⟩
  -- the span of the expression, from the tokens that cover the line
  obtain ⟨d, hd, hlow⟩ := exists_derives_of_ofLine hline
  obtain ⟨e, he, rfl⟩ := of_program_iff.1 ⟨hd.symbol, hd.valid⟩
  rw [lower, lowerAll_singleton, List.singleton_inj] at hlow
  obtain ⟨p, vs, q, hyield, rfl⟩ := hlet.exists_yield he (Tree.node.inj hlow).2.1
  have hcov := hd.covers
  rw [yield, yieldAll_singleton, hyield] at hcov
  refine ⟨_, Prod.ext (program_of_means ht hm) ?_, ?_, _, rfl, hcov.trims "unsupported"⟩
  · have hdiagnostics := diagnostics_eq ht
    rw [hlet.diagnostics_eq] at hdiagnostics
    simp [Source.read, hdiagnostics, Journal.reportAll, Journal.report]
  · have htext := text_eq_of_ofLine hline
    rw [Tree.text, Tree.textAll, Tree.textAll, String.append_empty] at htext
    exact htext

theorem outcomes_of_error {f : Failure} (h : s.tree = .error f) (j : Journal) : s.Outcomes j := by
  obtain ⟨r, -, rfl⟩ := tree_eq_error_iff.1 h
  have hread := read_of_error h j
  have hlet : ¬ ∃ sp, s.IsLet sp := by
    rintro ⟨sp, ts, a, b, ht, -⟩
    rw [h] at ht
    cases ht
  have hdiagnostics : s.diagnostics = [] := by
    unfold diagnostics
    rw [h]
  exact {
    ends := .inl ⟨r, by rw [hread]⟩
    rejected_iff := fun q => by simp [hread, h]
    rejected := fun f _ => by rw [hread]
    noProgram_iff := by simpa [hread] using hlet
    noProgram := fun sp n hsp => absurd ⟨sp, hsp⟩ hlet
    ok_iff := by simp [hread, h]
    unhandled := by simp [hdiagnostics]
    root := by simp [h] }

theorem outcomes_of_ok {t : Tree} (h : s.tree = .ok t) (j : Journal) : s.Outcomes j := by
  obtain ⟨ts, a, b, m, rfl, hm⟩ := exists_means_of_ofLine (tree_eq_ok_iff.1 h)
  have hlet := exists_isLet_iff h hm
  have hread : (s.read j).1 = _ := program_of_means h hm
  have hnoProgram : ∀ sp n, s.IsLet sp → (s.read j).1 = .error (.noProgram s n) →
      (s.read j).2 = j.report (.unhandledRule .letForm sp) ∧
        n.found = .ofList (s.content.toList.filter (!isBlank ·)) ∧
        ∃ l, (Failure.noProgram s n).label? = some l ∧ l.Trims s.content := by
    intro sp n hsp hn
    obtain ⟨n', hread', hn'⟩ := hsp.read j
    rw [hread'] at hn ⊢
    obtain rfl := (Failure.noProgram.inj (Except.error.inj hn)).2
    exact ⟨rfl, hn'⟩
  refine ⟨?_, fun q => ?_, by simp [h], ?_, hnoProgram, ?_, fun r sp => unhandledRule_eq h hm,
    fun t ht => ?_⟩
  · rw [hread]
    cases m with
    | none => exact .inr (.inl ⟨_, rfl⟩)
    | some e => exact .inr (.inr ⟨_, rfl⟩)
  · rw [hread, h]
    cases m <;> simp
  · rw [hread, hlet]
    cases m <;> simp
  · rw [hread, hlet, h]
    cases m <;> simp
  · rw [h] at ht
    exact ⟨_, _, _, (Except.ok.inj ht).symm⟩

/-- **How reading a source ends.** A source is refused, means nothing or means a program; it
means nothing just if it is a let form, maybe in parentheses. -/
theorem read_outcomes (s : Source) (j : Journal) : s.Outcomes j := by
  cases h : s.tree with
  | error f => exact outcomes_of_error h j
  | ok t => exact outcomes_of_ok h j

end Source

end ArithLine

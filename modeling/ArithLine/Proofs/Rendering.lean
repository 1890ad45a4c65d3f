import ArithLine.Proofs.Rendering.Derivation
import ArithLine.Proofs.Rendering.Spelling

/-!
# Reading inverts rendering

* `Source.reads_iff_rendered`: a source means an expression, without a diagnostic, just if
  it is a text of that expression.
-/

namespace ArithLine

open Grammar Derivation

/-- **Reading inverts rendering.** A source means an expression, and nothing is reported about
it, just if it is a text of that expression. -/
theorem Source.reads_iff_rendered (s : Source) (e : Expr) :
    s.program = .ok ⟨e⟩ ∧ s.diagnostics = [] ↔ e.RenderedBy s.content := by
  constructor
  · rintro ⟨hprogram, hdiagnostics⟩
    obtain ⟨t, ht⟩ : ∃ t, s.tree = .ok t := by
      cases ht : s.tree with
      | ok t => exact ⟨t, rfl⟩
      | error f => rw [Source.program, ht] at hprogram; cases hprogram
    obtain ⟨d, hd, hlow⟩ := exists_derives_of_ofLine (Source.tree_eq_ok_iff.1 ht)
    obtain ⟨f, hf, rfl⟩ := of_program_iff.1 ⟨hd.symbol, hd.valid⟩
    obtain ⟨d, hsum, rfl⟩ := of_expr_iff.1 hf
    obtain rfl := List.singleton_inj.1 hlow
    rw [Source.diagnostics_eq ht] at hdiagnostics
    obtain ⟨x, b, -, hconv, hspell⟩ := (hsum.isOperand rfl).hasText s.content.toList hdiagnostics
    have hbody := Source.body_eq ht
    rw [hprogram, hconv.exprs] at hbody
    obtain rfl := Option.some.inj hbody
    -- the tokens of the line spell the expression; what they leave at its end is blank
    have hcov := hd.covers
    simp only [yield, yieldAll] at hcov
    obtain ⟨bs, cs, bs', k, hcs, hbs, hr, hrest⟩ := hspell 0 [] _ (by simpa using hcov)
    exact ⟨bs, cs, bs', b, hcs, hbs, hrest.all_isBlank, hr⟩
  · rintro ⟨bs, cs, bs', b, hline, hbs, hbs', hr⟩
    obtain ⟨d, hd, hseg, hconv⟩ := hr.hasDerivation .sum trivial (0 + byteLength bs)
    have hprogram := of_program_iff.2 ⟨_, of_expr_iff.2 ⟨d, hd, rfl⟩, rfl⟩
    -- blanks end the last word of the text, as the end of the line does
    have hcov : Covers 0 d.yield s.content.toList := by
      have hend : Covers (0 + byteLength bs + byteLength cs) [] bs' := by
        simpa using Covers.blanks hbs' (.done _)
      have hword : bs'.head?.any isWordChar = false := by
        have hnil : ([] : List Char).head?.any isWordChar = false := rfl
        simpa using Stretch.head?_blanks hbs' hnil
      rw [hline]
      simpa using Covers.blanks hbs (hseg [] bs' hword hend)
    have hder : Derives s.content _ :=
      ⟨hprogram.symbol, hprogram.valid, by simpa [yield, yieldAll] using hcov⟩
    obtain ⟨t, ht, hlow⟩ := hder.ofLine
    obtain rfl := List.singleton_inj.1 hlow
    have htree := Source.tree_eq_ok_iff.2 ht
    refine ⟨?_, (Source.diagnostics_eq htree).trans (hconv _).clean⟩
    have hbody := Source.body_eq htree
    rw [(hconv _).exprs] at hbody
    cases hs : s.program with
    | ok p => rw [hs] at hbody; rw [← Option.some.inj hbody]
    | error f => rw [hs] at hbody; cases hbody

end ArithLine

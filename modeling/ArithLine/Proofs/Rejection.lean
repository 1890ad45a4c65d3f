import ArithLine.Proofs.Grammar.Completion
import ArithLine.Proofs.Grammar.Prefix
import ArithLine.Proofs.Grammar.Unambiguous

/-!
# Where a line is refused

* `StopsAt.exists_derives`: what stands before a fault can be completed, since whatever has
  been read can be.
* `Failure.PointsAt`: a failure points between what can be completed and what cannot stand
  after it.
* `Source.rejected_at`: every source that is refused is refused at such a place.
-/

namespace ArithLine

open Grammar Derivation

namespace StopsAt

variable {line before after : List Char} {r : Rejection} {v : Unfinished}

/-- What has been read before a fault, in tokens that cover it. -/
theorem exists_reads (h : StopsAt line r before after v) :
    ∃ vs, v.Reads before vs ∧ Covers 0 vs before :=
  Unfinished.reads_start.run (covers_place 0 before) h.run

/-- **What stands before a fault can be completed.** -/
theorem exists_derives (h : StopsAt line r before after v) :
    ∃ ds d, Derives (.ofList (before ++ ' ' :: ds)) d := by
  obtain ⟨vs, hreads, hcov⟩ := h.exists_reads
  obtain ⟨ds, d, hd, -⟩ := hreads.finishable.exists_derives hcov
  exact ⟨ds, d, hd⟩

end StopsAt

/-- The text that is refused at the start of another. -/
def refusedText (after : String) : String := .ofList (refusedRun after.toList)

/-- Whether a failure points at a place of a source, between what can be completed and what
cannot stand after it. -/
structure Failure.PointsAt (f : Failure) (s : Source) (before after : String) : Prop where
  content : s.content = before ++ after
  label : f.label? = some ⟨"here", before.utf8ByteSize, 0⟩
  not_isBlank : ∀ c ∈ after.toList.head?, isBlank c = false
  completed : ∃ c t, (Source.mk s.name (before ++ c)).tree = .ok t
  /-- No line goes on with what is refused, where a blank ends it. -/
  refused : after ≠ "" → ∀ rest t,
    (Source.mk s.name (before ++ refusedText after ++ " " ++ rest)).tree ≠ .ok t

namespace Source

variable {s : Source} {f : Failure}

/-- **A refused source is refused at the first token that cannot stand there.** -/
theorem rejected_at (h : s.tree = .error f) : ∃ before after, f.PointsAt s before after := by
  obtain ⟨r, hr, rfl⟩ := tree_eq_error_iff.1 h
  obtain ⟨before, after, v, hstop⟩ := exists_stopsAt hr
  refine ⟨.ofList before, .ofList after, ?_, ?_, ?_, ?_, ?_⟩
  · rw [← String.ofList_append, ← hstop.line_eq, String.ofList_toList]
  · rw [utf8ByteSize_ofList, ← hstop.offset]
    rfl
  · rw [String.toList_ofList]
    exact hstop.not_isBlank
  · obtain ⟨ds, d, hd⟩ := hstop.exists_derives
    obtain ⟨t, ht, -⟩ := hd.ofLine
    rw [String.ofList_append] at ht
    exact ⟨_, t, tree_eq_ok_iff.2 ht⟩
  · intro hne rest t ht
    have hafter : after ≠ [] := fun h => hne (by rw [h, String.ofList_nil])
    have htext : String.ofList before ++ refusedText (.ofList after) ++ " " ++ rest =
        .ofList (before ++ (refusedRun after ++ ' ' :: rest.toList)) := by
      rw [← String.toList_inj]
      simp [refusedText]
    have hline := tree_eq_ok_iff.1 ht
    rw [htext] at hline
    exact hstop.ne_ok hafter rest.toList t hline

theorem rejected_after_body : ∃ f, (Source.input "(let ((x 1)) x y)").tree = .error f ∧
    ∃ before after, f.PointsAt (Source.input "(let ((x 1)) x y)") before after := by
  obtain ⟨f, hf⟩ : ∃ f, (Source.input "(let ((x 1)) x y)").tree = .error f := ⟨_, rfl⟩
  exact ⟨f, hf, rejected_at hf⟩

end Source

end ArithLine

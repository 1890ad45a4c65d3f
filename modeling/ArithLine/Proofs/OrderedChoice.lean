import ArithLine.Proofs.OrderedChoice.Operand

/-!
# Reading a line with ordered choice

The grammar, run on the characters of a line with its alternatives in order, and the reader of
tokens, which never looks at a token twice, do the same.

* `parses_ofLine`: the grammar comes to an end on every line, with the reader's tree, or with a
  rejection at the same byte that lists the same items.
* `parses_iff`: and with nothing else.
-/

namespace ArithLine

open OrderedChoice Pattern

theorem Tree.ofLine_eq_readFrom (line : String) :
    Tree.ofLine line = Unfinished.start.readFrom (.start line) := by
  rw [Tree.ofLine, Unfinished.readFrom, Cursor.start, Nat.zero_add, utf8ByteSize_eq]
  rfl

namespace OrderedChoice

variable {line : String} {c d : Cursor} {ps : List Pair} {k : Attempts}

theorem passes_endOfInput (h : c.rest = []) :
    Passes (call .endOfInput) c c [.mk .endOfInput (c.upTo c) ⟨c.pos, c.pos⟩ []] {} :=
  passes_of_runs fun _ => .stop h

theorem fails_endOfInput (h : c.rest ≠ []) :
    Fails (call .endOfInput) c ⟨c.pos, [.endOfInput]⟩ :=
  fails_of_runs fun _ => .stop_fail h

theorem passes_start (line : String) :
    Passes .start (.start line) (.start line) [] {} := fun a => by
  rw [Attempts.merge_nil]
  exact .start rfl

/-- A line is rejected for what its expression and its end have tried. -/
theorem parses_error {y : Rejection}
    (h : Fails (seq expr (call .endOfInput)) (Cursor.start line).skip k)
    (hk : 0 < k.pos ∨ k.rules.length = 1) (hy : k.rejection = y) : Parses line (.error y) := by
  have hcollapse : k.collapse (.form .program) 0 = k := if_pos (by omega)
  have hrun := ((passes_start line).seq_fails_of_nil h).call (r := .form .program) rfl {}
  rw [Attempts.nil_merge, show (Cursor.start line).pos = 0 from rfl, hcollapse] at hrun
  rw [← hy]
  exact .rejected hrun

theorem parses_ofLine (line : String) : Parses line (Tree.ofLine line) := by
  rw [Tree.ofLine_eq_readFrom, ← Unfinished.readFrom_skip]
  have hreads : Role.sum.Reads 0 (Cursor.start line).skip :=
    readsSum_of_atom (readsAtom (Cursor.isSkipped_skip _)) fun _ hd _ => readsAtom hd
  rcases hreads with @⟨d, x, ps, k, hx, -⟩ | ⟨hc, -, -⟩ | @⟨k, y, h, hk, -, hy⟩ |
    @⟨d, o, ps, k, y, h, -, hd, -, hk, -, hy⟩
  · obtain ⟨p, hp, hlower⟩ := passes_expr hx
    by_cases hend : d.skip.rest = []
    · have hrun := ((passes_start line).seq_of_nil (hp.seq (passes_endOfInput hend))).call
        (r := .form .program) rfl {}
      have hread : Unfinished.start.readFrom (Cursor.start line).skip =
          .ok (.node .program [(level x).close x.2.2 d.skip.pos] ⟨0, d.skip.pos⟩) :=
        (hx.reads []).trans (Unfinished.readFrom_nil hend)
      rw [hread]
      refine .accepted hrun ?_
      simp [Pair.lower, lowerAll, hlower, Cursor.start]
    · have hrej := rejects_ended hx [.endOfInput] (by decide) (by simp)
        ((hx.tries.merge (.mk_self _ [.endOfInput])).congr fun r => by
          simp [operators_level, or_comm])
      rw [show Unfinished.start.readFrom _ = _ from readFrom_ended hx (fun _ => hend) (by simp)]
      exact parses_error (hp.seq_fails (fails_endOfInput hend)) (.inl (Nat.zero_lt_of_lt hrej.lt))
        hrej.rejection_eq
  · rw [Unfinished.readFrom_of_startsNothing rfl hc]
    exact parses_error ((fails_expr hc).seq _) (.inr rfl) rfl
  · rw [show Unfinished.start.readFrom _ = _ from hy []]
    have hexpr := h.call_of_lt (r := .form .expr) rfl hk.lt
    exact parses_error (hexpr.seq _) (.inl (Nat.zero_lt_of_lt hk.lt)) hk.rejection_eq
  · have hend : d.skip.rest ≠ [] := by
      intro hnil
      rw [hnil] at hd
      cases hd
    have hk' := hk.merge_right (a := ⟨d.skip.pos, [.endOfInput]⟩) le_rfl
    rw [show Unfinished.start.readFrom _ = _ from hy []]
    exact parses_error ((h.call (r := .form .expr) rfl).seq_fails (fails_endOfInput hend))
      (.inl (Nat.zero_lt_of_lt hk'.lt)) hk'.rejection_eq

theorem Parses.unique {r r' : Except Rejection Tree} (h : Parses line r) (h' : Parses line r') :
    r = r' := by
  cases h with
  | accepted h ht =>
    cases h' with
    | accepted h' ht' =>
      cases h.unique h'
      rw [Option.some.inj (ht.symm.trans ht')]
    | rejected h' => cases h.unique h'
  | rejected h =>
    cases h' with
    | accepted h' => cases h.unique h'
    | rejected h' =>
      cases h.unique h'
      rfl

/-- **The grammar with ordered choice makes of a line what the reader does**: the same tree, or the
same rejection. -/
theorem parses_iff {r : Except Rejection Tree} : Parses line r ↔ Tree.ofLine line = r := by
  refine ⟨fun h => (parses_ofLine line).unique h, ?_⟩
  rintro rfl
  exact parses_ofLine line

-- A sum that has been read for good is not taken back where a difference goes on.
example : Parses "1 + 2 - 3" (.error ⟨6, [.endOfInput, .glyph (.op .add), .glyph (.op .mul),
    .glyph (.op .div)]⟩) := parses_iff.2 (by rfl)

end OrderedChoice

end ArithLine

import ArithLine.Proofs.OrderedChoice.Layer

/-!
# Expressions with ordered choice

* `Role.atom`, `Tier.product`, `Tier.sum`: operands and the two layers over them.
* `readsSum_of_atom`: what comes of an expression, from what comes of its operands.
* `Enclosed`, `encloses_of_reads`: an expression up to its closing parenthesis. A group, a
  binding and the body of a let form all end so (`Frame.close`).
-/

namespace ArithLine

/-- What is there once the expression inside a form has been closed. -/
def Frame.close (s : List Frame) (e closing : Tree) : Frame → Unfinished
  | group l opening => .ended s l [opening, e, closing]
  | binding f => .bindings s ((f.push e).push closing) true
  | body f => .ended s f.outer [.spanning .letForm ((f.push e).push closing).before.reverse]

namespace OrderedChoice

open Pattern

/-! ## The two layers -/

/-- An operand of a product. -/
def Role.atom : Role where
  pattern := Pattern.atom
  Env := List Frame × Level
  Item := List Tree
  wanted e := .operand e.1 e.2
  ended e ts := .ended e.1 e.2 ts
  trees ts _ := ts
  operators _ := []
  allOperators := []
  refusals := [.glyph .opening, .numeral, .name, .glyph .opening, .unknown]
  Halts _ := False

/-- Products of atoms. -/
def Tier.product : Tier where
  operand := .atom
  first := .mul
  second := .div
  Env := List Frame × Option OpenChain
  place e p := (e.1, ⟨e.2, p⟩)
  body_eq := by rintro _ (rfl | rfl) <;> rfl
  step_eq := by
    rintro _ (rfl | rfl) e p x n <;>
      simp [Role.atom, Unfinished.step, Unfinished.stepEnded, Level.operator?, Op.isTight,
        Function.comp_def]
  wantsOperand _ := rfl
  not_wantsOperand _ _ := rfl
  expected_eq e p n := by
    rw [Attempts.rejection, Rejection.mk.injEq]
    refine ⟨rfl, ?_⟩
    simp only [Role.atom, Unfinished.expected, Level.isFresh, Option.isNone_some, Bool.and_false,
      Bool.false_eq_true, if_false, List.nil_append]
    rfl
  length_refusals := by decide
  ne := by decide
  ne_of_halts := fun h => h.elim

/-- Sums of products. -/
def Tier.sum : Tier where
  operand := Tier.product.above
  first := .add
  second := .sub
  Env := List Frame
  place s p := (s, p)
  body_eq := by rintro _ (rfl | rfl) <;> rfl
  step_eq := by
    rintro _ (rfl | rfl) e p ⟨_ | q, x⟩ n <;>
      simp [Tier.product, Tier.above, Role.atom, Unfinished.step, Unfinished.stepEnded,
        Level.operator?, Level.closeProduct, Op.isTight, Function.comp_def]
  wantsOperand _ := rfl
  not_wantsOperand _ _ := rfl
  expected_eq _ _ _ := rfl
  length_refusals := by decide
  ne := by decide
  ne_of_halts := by
    rintro o p ((rfl | rfl) | h) (rfl | rfl)
    · decide
    · decide
    · decide
    · decide
    · exact h.elim
    · exact h.elim

/-- What an expression stands for. -/
abbrev Role.sum : Role := Tier.sum.above

variable {c d : Cursor} {n : ℕ} {x : Role.sum.Item} {ps : List Pair} {k : Attempts}
  {s : List Frame}

/-- **What comes of an expression**, from what comes of its products. -/
theorem readsSum_of_product (h : Tier.product.above.Reads n c)
    (hrest : ∀ d, d.IsSkipped → d.rest.length < c.rest.length → Role.atom.Reads 0 d) :
    Role.sum.Reads n c := by
  refine Tier.sum.reads_above h fun d hd hlt => ?_
  exact Tier.product.reads_above (hrest d hd hlt) fun b hb hlt' => hrest b hb (hlt'.trans hlt)

theorem readsSum_of_atom (h : Role.atom.Reads n c)
    (hrest : ∀ d, d.IsSkipped → d.rest.length < c.rest.length → Role.atom.Reads 0 d) :
    Role.sum.Reads n c :=
  readsSum_of_product (Tier.product.reads_above h hrest) hrest

/-! ## Where no operand starts -/

theorem word_eq_nil_of_startsNothing (hc : c.StartsNothing) : c.word = [] := by
  rw [Cursor.word_eq_nil_iff]
  rcases hc with hnil | ⟨g, r, hrest, -⟩
  · rw [hnil]
    rfl
  · rw [hrest]
    rcases g with _ | _ | (_ | _ | _ | _) <;> rfl

theorem fails_numeral_of_startsNothing (hc : c.StartsNothing) :
    Fails (call .numeral) c ⟨c.pos, [.numeral]⟩ := by
  have hword := word_eq_nil_of_startsNothing hc
  by_cases hminus : c.rest.head? = some '-'
  · obtain ⟨r, hr⟩ := List.head?_eq_some_iff.1 hminus
    refine fails_numeral (d := ⟨c.pos + 1, r⟩) (.inl ⟨hr, rfl⟩) ?_
    rcases hc with hnil | ⟨g, r', hrest, -, hsub⟩
    · rw [hnil] at hr
      cases hr
    · obtain ⟨hg, rfl⟩ := List.cons.inj (hrest.symm.trans hr)
      exact hsub (Glyph.char_injective hg)
  · refine fails_numeral (.inr ⟨hminus, rfl⟩) ?_
    rw [hword]
    rfl

theorem fails_atom (hc : c.StartsNothing) : Fails atom c ⟨c.pos, Role.atom.refusals⟩ := by
  have hword := word_eq_nil_of_startsNothing hc
  have hglyph : Fails (glyph .opening) c ⟨c.pos, [.glyph .opening]⟩ := by
    refine fails_glyph ?_
    rcases hc with hnil | ⟨g, r, hrest, hopen, -⟩
    · simp [hnil]
    · rw [hrest]
      exact fun heq => hopen (Glyph.char_injective (Option.some.inj heq))
  have hlet := (hglyph.seq _).call_of_one (r := .form .letForm) rfl
  have hnumeral := (fails_numeral_of_startsNothing hc).call_of_one (r := .form .numeral) rfl
  have hname := fails_word rfl matches_name (c := c) (by rw [hword]; rfl)
  have hvar := hname.call_of_one (r := .form .var) rfl
  have hunknown := fails_word rfl matches_unknown (c := c) (by rw [hword]; rfl)
  have := hlet.choice (hnumeral.choice (hvar.choice ((hglyph.seq enclosed).choice hunknown)))
  simp only [Attempts.merge_same] at this
  exact this

theorem fails_expr (hc : c.StartsNothing) : Fails expr c ⟨c.pos, [.form .expr]⟩ :=
  (Tier.sum.above_fails (Tier.product.above_fails (fails_atom hc))).call_of_several rfl
    (show Role.sum.refusals.length ≠ 1 by decide)

theorem fails_enclosed (hc : c.StartsNothing) : Fails enclosed c ⟨c.pos, [.form .expr]⟩ :=
  (fails_expr hc).seq _

/-! ## The end of an expression -/

/-- The chains of an expression that has ended. -/
def level (x : Role.sum.Item) : Level := ⟨x.1, x.2.1⟩

theorem close_level (x : Role.sum.Item) (n : ℕ) :
    (level x).close x.2.2 n = .spanning .expr (Role.sum.trees x n) := by
  rcases x with ⟨_ | p, _ | q, ts⟩ <;> rfl

theorem operators_level (x : Role.sum.Item) : (level x).operators = Role.sum.operators x := by
  rcases x with ⟨_ | p, _ | q, ts⟩ <;> rfl

theorem passes_expr (hx : Role.sum.Ends c d x ps k) :
    ∃ p, Passes expr c d [p] k ∧ p.lower = some ((level x).close x.2.2 d.skip.pos) := by
  refine ⟨_, hx.passes.call rfl, ?_⟩
  rw [Pair.lower, close_level, Tree.spanning, ← hx.lowered, extent_eq hx.startsAt hx.endsAt]

/-- What a report says after an expression that does not go on: what else has been tried there,
and the operators of its level. -/
theorem rejects_ended (hx : Role.sum.Ends c d x ps k) (rs : List Expected)
    (hrs : rs.Sublist [.endOfInput, .glyph .opening, .glyph .closing]) (hne : rs ≠ [])
    {k' : Attempts}
    (hk : k'.Tries d.skip.pos (rs ++ (level x).operators.map fun o => .glyph (.op o))) :
    k'.Rejects c.pos ⟨d.skip.pos, rs ++ (level x).operators.map fun o => .glyph (.op o)⟩ := by
  refine .of_tries hk (List.append_ne_nil_of_left_ne_nil hne _) ?_ hx.lt_skip
  rw [operators_level]
  exact (hrs.append (hx.sublist.map _)).trans (by decide)

/-- An expression that does not go on and is not closed either is refused. -/
theorem readFrom_ended (hx : Role.sum.Ends c d x ps k) (hnil : s = [] → d.skip.rest ≠ [])
    (hclose : s ≠ [] → d.skip.rest.head? ≠ some ')') :
    (Unfinished.operand s {}).readFrom c =
      .error ⟨d.skip.pos, Unfinished.expectedEnded s (level x)⟩ := by
  refine (hx.reads s).trans ?_
  refine Unfinished.readFrom_of_none d.isSkipped_skip rfl (fun hr => ?_) (fun g r hr => ?_) rfl
  · cases s with
    | nil => exact absurd hr (hnil rfl)
    | cons f s => rfl
  · refine Unfinished.stepEnded_eq_none (fun o ho hg => ?_) (fun hs hg => ?_) _
    · refine hx.stops o (operators_level x ▸ ho) ?_
      rw [hr, hg]
      rfl
    · refine hclose hs ?_
      rw [hr, hg]
      rfl

/-! ## Enclosed expressions -/

/-- **What comes of an expression and its closing parenthesis**, whatever form they close. They
end, or attempts stop, at the byte `n` or after it. -/
inductive Encloses (n : ℕ) (c : Cursor) : Prop
  | ends {d : Cursor} {e closing : Tree} {ps : List Pair} {k : Attempts}
    (h : Passes enclosed c d ps k) (shorter : d.rest.length < c.rest.length) (lt : c.pos < d.pos)
    (hk : k.pos < d.pos) (hn : n ≤ d.pos) (lowered : lowerAll ps = [e, closing])
    (stop : closing.span.stop = d.pos)
    (reads : ∀ f s, (Unfinished.operand (f :: s) {}).readFrom c = (f.close s e closing).readFrom d)
  | nothing (hc : c.StartsNothing) (hn : n ≤ c.pos)
  | fails {k : Attempts} {y : Rejection} (h : Fails enclosed c k) (hk : k.Rejects c.pos y)
    (hn : n ≤ k.pos) (reads : ∀ f s, (Unfinished.operand (f :: s) {}).readFrom c = .error y)

/-- An expression that is not closed. -/
theorem enclosed_fails (hx : Role.sum.Ends c d x ps k) (h : d.skip.rest.head? ≠ some ')') :
    ∃ k', Fails enclosed c k' ∧ k'.Tries d.skip.pos
      (.glyph .closing :: (level x).operators.map fun o => .glyph (.op o)) := by
  obtain ⟨p, hp, -⟩ := passes_expr hx
  refine ⟨_, hp.seq_fails (fails_glyph (g := .closing) h), ?_⟩
  rw [operators_level]
  exact (hx.tries.merge (.mk_self _ _)).congr fun r => by simp [or_comm]

/-- An expression that is closed. -/
theorem encloses_of_closing (hx : Role.sum.Ends c d x ps k) (hn : n ≤ d.skip.pos + 1)
    (h : d.skip.rest.head? = some ')') : Encloses n c := by
  obtain ⟨r, hr⟩ := List.head?_eq_some_iff.1 h
  obtain ⟨p, hp, hlower⟩ := passes_expr hx
  have hlowered : lowerAll ([p] ++ [.ofGlyph .closing d.skip.pos]) =
      [(level x).close x.2.2 d.skip.pos, Token.leaf ⟨.glyph .closing, d.skip.pos⟩] := by
    rw [List.singleton_append, lowerAll, lowerAll_glyph, hlower]
    rfl
  refine .ends (hp.seq (passes_glyph (g := .closing) hr)) ?_ ?_ ?_ hn hlowered rfl fun f s => ?_
  · exact (Nat.lt_of_succ_le (by rw [hr]; rfl)).trans_le (d.length_skip_le.trans hx.shorter.le)
  · exact hx.lt_skip.trans (Nat.lt_succ_self _)
  · rw [Attempts.merge_nil]
    exact Nat.lt_succ_of_le hx.tries.le
  · refine (hx.reads _).trans ?_
    rw [Unfinished.readFrom_glyph (g := .closing) hr (by simp)]
    refine Unfinished.goOn_of_step ?_
    cases f <;> rfl

theorem encloses (h : Role.sum.Reads n c) : Encloses n c := by
  rcases h with @⟨d, x, ps, k, hx, hn⟩ | ⟨hc, -, hn⟩ | @⟨k, y, h, hk, hn, hy⟩ |
    @⟨d, o, ps, k, y, h, ho, hd, hle, hk, hn, hy⟩
  · by_cases hhead : d.skip.rest.head? = some ')'
    · exact encloses_of_closing hx (hn.trans (Nat.le_succ _)) hhead
    · obtain ⟨k', hfail, hk'⟩ := enclosed_fails hx hhead
      have hn' : n ≤ k'.pos := hn.trans_eq (hk'.pos_eq (by simp)).symm
      have hrej := rejects_ended hx [.glyph .closing] (by decide) (by simp) hk'
      exact .fails hfail hrej hn' fun f s => readFrom_ended hx (by simp) fun _ => hhead
  · exact .nothing hc hn
  · exact .fails ((h.call_of_lt (r := .form .expr) rfl hk.lt).seq _) hk hn fun f s => hy _
  · have hne : d.skip.rest.head? ≠ some (Glyph.char .closing) := by
      rw [hd]
      cases o <;> decide
    have hk' := hk.merge_right (a := ⟨d.skip.pos, [.glyph .closing]⟩) le_rfl
    refine .fails ((h.call (r := .form .expr) rfl).seq_fails (fails_glyph hne)) (hk'.mono hle) ?_
      fun f s => hy _
    rw [Attempts.pos_merge]
    exact le_max_of_le_left hn

end OrderedChoice

end ArithLine

import ArithLine.Proofs.OrderedChoice.Chain

/-!
# Layers with ordered choice

The grammar looks for a chain of one operator, then for one of another and then for an operand
alone, each time from the same place. The reader goes over the line once and keeps the chain
open. Both layers of an expression do this alike, products over atoms and sums over products.

* `Tier.ends_alone`: an operand alone.
* `Tier.ends_chain`, `Tier.reads_chain`: a chain of two operands or more.
* `Tier.reads_above`: what comes of a layer, from what comes of its operands.
-/

namespace ArithLine.OrderedChoice.Tier

open Pattern

variable {T : Tier} {c d d' : Cursor} {x x' : T.operand.Item} {ps qs : List Pair}
  {k k' : Attempts} {o o' : Op} {q : OpenChain} {n : ℕ}

/-! ## Chains that fail -/

/-- A chain fails with its first operand. -/
theorem body_fails_of_operand (ho : o = T.first ∨ o = T.second)
    (h : Fails T.operand.pattern c k) : Fails (body (.form (.chain o))) c k := by
  rw [T.body_eq ho]
  exact h.seq _

/-- Where no operand starts, both chains are tried first. -/
theorem above_fails (h : Fails T.operand.pattern c ⟨c.pos, T.operand.refusals⟩) :
    Fails T.above.pattern c ⟨c.pos, T.above.refusals⟩ := by
  have hchain : ∀ o, o = T.first ∨ o = T.second →
      Fails (call (.form (.chain o))) c ⟨c.pos, [.form (.chain o)]⟩ := fun o ho =>
    (body_fails_of_operand ho h).call_of_several rfl T.length_refusals
  have := (hchain _ (.inl rfl)).choice ((hchain _ (.inr rfl)).choice h)
  rwa [Attempts.merge_same, Attempts.merge_same] at this

/-- A chain fails with its first operator or the operand after it. -/
theorem chain_fails (ho : o = T.first ∨ o = T.second) (hx : Passes T.operand.pattern c d ps k)
    (h : Fails (link o T.operand.pattern) d.skip k') (hk : c.pos < max k.pos k'.pos) :
    Fails (call (.form (.chain o))) c (k.merge k') := by
  have hbody : Fails (body (.form (.chain o))) c (k.merge k') := by
    rw [T.body_eq ho]
    exact hx.seq_fails (h.seq _)
  exact hbody.call_of_lt rfl (hk.trans_eq (Attempts.pos_merge k k').symm)

/-- A chain fails where its operator does not stand. -/
theorem chain_fails_of_head (ho : o = T.first ∨ o = T.second)
    (hx : Passes T.operand.pattern c d ps k) (hd : c.pos < d.skip.pos)
    (h : d.skip.rest.head? ≠ some o.glyph) :
    Fails (call (.form (.chain o))) c (k.merge ⟨d.skip.pos, [.glyph (.op o)]⟩) :=
  chain_fails ho hx ((fails_glyph (g := .op o) h).seq _) (lt_max_of_lt_right hd)

/-! ## Chains that pass -/

theorem chain_passes (ho : o = T.first ∨ o = T.second) (hx : T.operand.Ends c d x ps k)
    (h : Passes (link o T.operand.pattern) d.skip d' qs k') {b : Cursor} {rs : List Pair}
    {j : Attempts} (h' : Passes (.again (link o T.operand.pattern)) d'.skip b rs j) :
    Passes (call (.form (.chain o))) c b
      [.mk (.form (.chain o)) (c.upTo b) ⟨c.pos, b.pos⟩ (ps ++ (qs ++ rs))]
      (k.merge (k'.merge j)) := by
  have hbody : Passes (body (.form (.chain o))) c b (ps ++ (qs ++ rs)) (k.merge (k'.merge j)) := by
    rw [T.body_eq ho]
    exact hx.passes.seq (h.seq (h'.star d'.isSkipped_skip))
  exact hbody.call rfl

/-- The chain that passes is taken, whether it is looked for first or after the other one. -/
theorem layer_passes (ho : o = T.first ∨ o = T.second) (hx : T.operand.Ends c d x ps k)
    (hhead : d.skip.rest.head? = some o.glyph) (h : Passes (call (.form (.chain o))) c d' qs k') :
    ∃ j : Attempts, j.pos ≤ d.skip.pos ∧ Passes T.above.pattern c d' qs (j.merge k') := by
  rcases ho with rfl | rfl
  · refine ⟨{}, Nat.zero_le _, ?_⟩
    rw [Attempts.nil_merge]
    exact h.choice _
  · have hne : d.skip.rest.head? ≠ some T.first.glyph := by
      rw [hhead]
      exact fun heq => T.ne (Op.glyph_injective (Option.some.inj heq)).symm
    refine ⟨_, ?_, (chain_fails_of_head (.inl rfl) hx.passes hx.lt_skip hne).choice_passes
      (h.choice _)⟩
    rw [Attempts.pos_merge]
    exact max_le hx.tries.le le_rfl

/-- Where both chains fail, the operand is taken alone. -/
theorem layer_operand {j j' : Attempts} (h : Fails (call (.form (.chain T.first))) c j)
    (h' : Fails (call (.form (.chain T.second))) c j')
    (hx : Passes T.operand.pattern c d ps k) :
    Passes T.above.pattern c d ps (j.merge (j'.merge k)) :=
  h.choice_passes (h'.choice_passes hx)

/-! ## An operand alone -/

/-- **An operand alone**: no operator of the layer stands after it. -/
theorem ends_alone (hx : T.operand.Ends c d x ps k)
    (h : ∀ o, o = T.first ∨ o = T.second → d.skip.rest.head? ≠ some o.glyph) :
    ∃ k', T.above.Ends c d (none, x) ps k' := by
  have hfirst := h T.first (.inl rfl)
  have hsecond := h T.second (.inr rfl)
  refine ⟨_, layer_operand (chain_fails_of_head (.inl rfl) hx.passes hx.lt_skip hfirst)
    (chain_fails_of_head (.inr rfl) hx.passes hx.lt_skip hsecond) hx.passes, hx.shorter, hx.lt, ?_,
    ?_, ?_, hx.lowered, hx.startsAt, hx.endsAt, fun e => hx.reads _⟩
  · refine ((hx.tries.merge (.mk_self _ [.glyph (.op T.first)])).merge
      ((hx.tries.merge (.mk_self _ [.glyph (.op T.second)])).merge hx.tries)).congr fun r => ?_
    simp [above, own]
    tauto
  · simpa [above, own, hfirst, hsecond] using hx.stops
  · exact hx.sublist.append_left _

/-! ## A chain -/

section First

variable {b : Cursor} (ho : o = T.first ∨ o = T.second) (hx : T.operand.Ends c d x ps k)
  (hhead : d.skip.rest.head? = some o.glyph) (hx' : T.operand.Ends b d' x' qs k')
  (hb : d.skip.pos < b.pos) (hrest : b.rest.length < c.rest.length)
  (hpass : Passes (link o T.operand.pattern) d.skip d' (.ofGlyph (.op o) d.skip.pos :: qs) k')
  (hreads : ∀ e, (T.operand.ended (T.place e none) x).readFrom d.skip =
    (T.operand.ended (T.place e (some (T.added none x o d.skip.pos))) x').readFrom d'.skip)
  {b' : Cursor} {x'' : T.operand.Item} {rs : List Pair} {j : Attempts}

include hx hx'

/-- The parse trees of a chain. -/
theorem Grows.lowerAll_eq
    (h : T.Grows o (T.added none x o d.skip.pos) x' k' d'.skip b' q x'' rs j) :
    lowerAll (ps ++ (.ofGlyph (.op o) d.skip.pos :: qs ++ rs)) =
      q.before.reverse ++ T.operand.trees x'' b'.skip.pos := by
  have hchildren := h.children
  rw [Cursor.skip_skip] at hchildren
  rw [hchildren, lowerAll_append, List.cons_append, lowerAll_glyph, lowerAll_append, hx.lowered,
    ← hx'.lowered, added]
  simp

/-- The node of a chain. Two operands take in the blanks after them, more do not. -/
theorem Grows.close_eq
    (h : T.Grows o (T.added none x o d.skip.pos) x' k' d'.skip b' q x'' rs j) :
    q.close (T.operand.trees x'' b'.skip.pos) b'.skip.pos =
      .node (.chain o) (q.before.reverse ++ T.operand.trees x'' b'.skip.pos) ⟨c.pos, b'.pos⟩ := by
  have hlower := h.lowerAll_eq hx hx'
  have hstarts : StartsAt (q.before.reverse ++ T.operand.trees x'' b'.skip.pos) c.pos := by
    rw [← hlower, lowerAll_append]
    exact hx.startsAt.append _
  rw [OpenChain.close, h.op_eq]
  rw [lowerAll_append, List.cons_append, lowerAll_glyph, lowerAll_append] at hlower
  rcases h.grows with ⟨rfl, rfl, rfl⟩ | ⟨hoperands, hends⟩
  · rw [lowerAll, List.append_nil, ← List.singleton_append] at hlower
    have hoperands : (T.added none x o d.skip.pos).operands = 1 := rfl
    rw [if_pos hoperands, extent_eq hstarts (hlower ▸ (hx'.endsAt.append _).append _),
      Cursor.skip_skip]
  · rw [← List.cons_append] at hlower
    rw [if_neg hoperands.ne', extent_eq hstarts (hlower ▸ (hends.append _).append _)]

include ho hhead hb hrest hpass hreads

/-- **A chain** to its end. -/
theorem ends_chain (h : T.Grows o (T.added none x o d.skip.pos) x' k' d'.skip b' q x'' rs j) :
    ∃ ps k, T.above.Ends c b' (some q, x'') ps k := by
  have hd : d.skip.pos < d'.skip.pos := hb.trans hx'.lt_skip
  have hend : d.skip.pos < b'.skip.pos := hd.trans_le (h.le.trans b'.pos_le_skip)
  obtain ⟨i, hi, hall⟩ := layer_passes ho hx hhead (chain_passes ho hx hpass h.passes)
  have hclose := h.close_eq hx hx'
  have hlowered : lowerAll [.mk (.form (.chain o)) (c.upTo b') ⟨c.pos, b'.pos⟩
      (ps ++ (.ofGlyph (.op o) d.skip.pos :: qs ++ rs))] =
      [q.close (T.operand.trees x'' b'.skip.pos) b'.skip.pos] := by
    rw [hclose, ← h.lowerAll_eq hx hx']
    simp [lowerAll, Pair.lower]
  have htries := (Attempts.Tries.of_lt (hi.trans_lt hend)).merge
    ((Attempts.Tries.of_lt (hx.tries.le.trans_lt hend)).merge h.tries)
  refine ⟨_, _, hall, ?_, hx.lt_skip.trans (hd.trans_le h.le), ?_, ?_, ?_, hlowered, ?_, ?_,
    fun e => ?_⟩
  · exact (h.shorter.trans d'.length_skip_le).trans_lt (hx'.shorter.trans hrest)
  · simpa [above, own, h.op_eq] using htries
  · simpa [above, own, h.op_eq] using h.stops
  · refine (List.singleton_sublist.2 ?_).append h.sublist
    rw [h.op_eq]
    simpa using ho
  · rw [hlowered, hclose]
    exact ⟨_, rfl, rfl⟩
  · rw [hlowered, hclose]
    exact ⟨_, rfl, rfl⟩
  · have hgrown := h.reads e
    rw [Cursor.skip_skip] at hgrown
    exact (hx.reads _).trans ((hreads e).trans hgrown)

/-- What comes of a chain, from what follows its first two operands. -/
theorem reads_chain (hn : n ≤ d.skip.pos + 1)
    (h : T.Looped o (T.added none x o d.skip.pos) x' k' d'.skip) : T.above.Reads n c := by
  have hd : d.skip.pos < d'.skip.pos := hb.trans hx'.lt_skip
  rcases h with h | ⟨hloop, ho', hhead', hle, hk, hreads'⟩
  · obtain ⟨_, _, hends⟩ := ends_chain ho hx hhead hx' hb hrest hpass hreads h
    exact .ends hends (hn.trans (hd.trans_le (h.le.trans (Cursor.pos_le_skip _))))
  · rw [Cursor.skip_skip] at hle hreads'
    obtain ⟨j, hj, hall⟩ := layer_passes ho hx hhead (chain_passes ho hx hpass hloop)
    have hk' := ((hk.merge_left (hx'.tries.le.trans hle)).merge_left
      (hx.tries.le.trans (hd.le.trans hle))).merge_left (hj.trans (hd.le.trans hle))
    exact .halts hall ho' hhead' (hx.lt_skip.le.trans (hd.le.trans hle)) hk'
      (hn.trans (hd.trans (hle.trans_lt hk'.lt))) fun e =>
        (hx.reads _).trans ((hreads e).trans (hreads' e))

end First

/-- An operator of the layer stands after the first operand, but no operand after it. The chain
fails, and the first operand is taken alone. -/
theorem reads_of_link_fails (ho : o = T.first ∨ o = T.second) (hx : T.operand.Ends c d x ps k)
    (hn : n ≤ d.skip.pos + 1) (hhead : d.skip.rest.head? = some o.glyph) {y : Rejection}
    (h : Fails (link o T.operand.pattern) d.skip k') (hk' : k'.Rejects d.skip.pos y)
    (hreads : ∀ e, (T.operand.ended (T.place e none) x).readFrom d.skip = .error y) :
    T.above.Reads n c := by
  have hchain := chain_fails ho hx.passes h (lt_max_of_lt_right (hx.lt_skip.trans hk'.lt))
  have hother : ∀ p, p = T.first ∨ p = T.second → p ≠ o →
      Fails (call (.form (.chain p))) c (k.merge ⟨d.skip.pos, [.glyph (.op p)]⟩) :=
    fun p hp hne => chain_fails_of_head hp hx.passes hx.lt_skip fun heq =>
      hne (Op.glyph_injective (Option.some.inj (heq.symm.trans hhead)))
  have hpos : ∀ p, (k.merge ⟨d.skip.pos, [.glyph (.op p)]⟩).pos ≤ d.skip.pos := fun p => by
    rw [Attempts.pos_merge]
    exact max_le hx.tries.le le_rfl
  -- the attempts of the operand count, whether the chain was looked for first or second
  obtain ⟨i, hpass, hi⟩ : ∃ i, Passes T.above.pattern c d ps i ∧ i.Rejects d.skip.pos y := by
    have hk := hk'.merge_left hx.tries.le
    rcases ho with rfl | rfl
    · refine ⟨_, layer_operand hchain (hother _ (.inr rfl) T.ne.symm) hx.passes,
        hk.merge_right ?_⟩
      rw [Attempts.pos_merge]
      exact max_le (hpos _) hx.tries.le
    · exact ⟨_, layer_operand (hother _ (.inl rfl) T.ne) hchain hx.passes,
        (hk.merge_right hx.tries.le).merge_left (hpos _)⟩
  exact .halts hpass (.inl ho) hhead hx.lt_skip.le hi (hn.trans hi.lt) fun e =>
    (hx.reads _).trans (hreads e)

/-- An operator of the layer and an operand stand after the first operand, and the operand halts. -/
theorem reads_of_link_halts (ho : o = T.first ∨ o = T.second) (hx : T.operand.Ends c d x ps k)
    (hn : n ≤ d.skip.pos + 1) (hhead : d.skip.rest.head? = some o.glyph) {y : Rejection}
    (h : Passes (link o T.operand.pattern) d.skip d' qs k') (ho' : T.operand.Halts o')
    (hd : d'.skip.rest.head? = some o'.glyph) (hle : d.skip.pos ≤ d'.skip.pos)
    (hk' : k'.Rejects d'.skip.pos y)
    (hreads : ∀ e, (T.operand.ended (T.place e none) x).readFrom d.skip = .error y) :
    T.above.Reads n c := by
  rw [← d'.skip_skip] at hd hle hk'
  have hne : d'.skip.skip.rest.head? ≠ some o.glyph := by
    rw [hd]
    exact fun heq => T.ne_of_halts ho' ho (Op.glyph_injective (Option.some.inj heq))
  have hnone : Passes (.again (link o T.operand.pattern)) d'.skip d'.skip [] _ :=
    ((fails_glyph (g := .op o) hne).seq T.operand.pattern).again
  obtain ⟨j, hj, hall⟩ := layer_passes ho hx hhead (chain_passes ho hx h hnone)
  have hlast : (k'.merge ⟨d'.skip.skip.pos, [.glyph (.op o)]⟩).Rejects d'.skip.skip.pos y :=
    hk'.merge_right le_rfl
  have hk := (hlast.merge_left (hx.tries.le.trans hle)).merge_left (hj.trans hle)
  exact .halts hall (.inr ho') hd (hx.lt_skip.le.trans hle) hk
    (hn.trans (hle.trans_lt hk.lt)) fun e => (hx.reads _).trans (hreads e)

/-- An operator of the layer stands after the first operand. -/
theorem reads_of_head (ho : o = T.first ∨ o = T.second) (hx : T.operand.Ends c d x ps k)
    (hn : n ≤ d.skip.pos + 1) (hhead : d.skip.rest.head? = some o.glyph)
    (h : ∀ d, d.IsSkipped → d.rest.length < c.rest.length → T.operand.Reads 0 d) :
    T.above.Reads n c := by
  have hle : d.skip.rest.length < c.rest.length := d.length_skip_le.trans_lt hx.shorter
  rcases linked (p := none) ho hhead (by simp) fun b hb hlt => h b hb (hlt.trans hle) with
    @⟨b, d', x', qs, k', hx', hb, hrest, hpass, hreads⟩ | @⟨k', y, hfail, hk', hreads⟩ |
    @⟨d', o', qs, k', y, hpass, ho', hd, hle', hk', hreads⟩
  · have hlt : d'.skip.rest.length < c.rest.length :=
      d'.length_skip_le.trans_lt (hx'.shorter.trans (hrest.trans hle))
    refine reads_chain ho hx hhead hx' hb (hrest.trans hle) hpass hreads hn ?_
    refine looped ho rfl Nat.one_pos ?_ ?_ hx'.sublist fun b hb hlt' => h b hb (hlt'.trans hlt)
    · rw [Cursor.skip_skip]
      exact hx'.tries
    · rw [Cursor.skip_skip]
      exact hx'.stops
  · exact reads_of_link_fails ho hx hn hhead hfail hk' hreads
  · exact reads_of_link_halts ho hx hn hhead hpass ho' hd hle' hk' hreads

/-! ## What comes of a layer -/

/-- **What comes of a layer**, from what comes of its operands. -/
theorem reads_above (hx : T.operand.Reads n c)
    (h : ∀ d, d.IsSkipped → d.rest.length < c.rest.length → T.operand.Reads 0 d) :
    T.above.Reads n c := by
  rcases hx with @⟨d, x, ps, k, hx, hn⟩ | ⟨hstarts, hfail, hn⟩ | @⟨k, y, hfail, hk, hn, hreads⟩ |
    @⟨d, o, ps, k, y, hpass, ho, hd, hle, hk, hn, hreads⟩
  · by_cases hhead : ∃ o, (o = T.first ∨ o = T.second) ∧ d.skip.rest.head? = some o.glyph
    · obtain ⟨o, ho, hhead⟩ := hhead
      exact reads_of_head ho hx (hn.trans (Nat.le_succ _)) hhead h
    · push Not at hhead
      obtain ⟨k', hx'⟩ := ends_alone hx hhead
      exact .ends hx' hn
  · exact .nothing hstarts (above_fails hfail) hn
  · have hchain : ∀ o, o = T.first ∨ o = T.second → Fails (call (.form (.chain o))) c k :=
      fun o ho => (body_fails_of_operand ho hfail).call_of_lt rfl hk.lt
    refine .stuck ((hchain _ (.inl rfl)).choice ((hchain _ (.inr rfl)).choice hfail))
      (hk.merge (hk.merge hk)) ?_ fun e => hreads _
    rw [Attempts.pos_merge]
    exact le_max_of_le_left hn
  · have hchain : ∀ p, p = T.first ∨ p = T.second →
        Fails (call (.form (.chain p))) c (k.merge ⟨d.skip.pos, [.glyph (.op p)]⟩) := fun p hp => by
      refine chain_fails hp hpass ((fails_glyph (g := .op p) ?_).seq _)
        (lt_max_of_lt_left (hle.trans_lt hk.lt))
      rw [hd]
      exact fun heq => T.ne_of_halts ho hp (Op.glyph_injective (Option.some.inj heq))
    have hk' : ∀ rs, (k.merge ⟨d.skip.pos, rs⟩).Rejects d.skip.pos y := fun _ =>
      hk.merge_right le_rfl
    refine .halts (layer_operand (hchain _ (.inl rfl)) (hchain _ (.inr rfl)) hpass) (.inr ho) hd hle
      ((hk' _).merge ((hk' _).merge hk)) ?_ fun e => hreads _
    rw [Attempts.pos_merge, Attempts.pos_merge (k.merge _)]
    exact le_max_of_le_right (le_max_of_le_right hn)

end ArithLine.OrderedChoice.Tier

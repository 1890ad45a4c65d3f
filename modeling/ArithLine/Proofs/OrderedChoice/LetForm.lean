import ArithLine.Proofs.OrderedChoice.Expression

/-!
# Let forms with ordered choice

Once a second parenthesis stands after the reserved word, only a let form can be meant. From there
on the grammar and the reader take one binding after another, as long as a parenthesis opens one,
and then the body.

* `Binds`: what comes of a binding.
* `Bound`: what comes of the bindings after the first one.
* `LetRest`: what comes of a let form from its first binding on.
-/

namespace ArithLine.OrderedChoice

open Pattern

variable {c d : Cursor}

/-! ## One binding -/

/-- What comes of a binding that a parenthesis opens. -/
inductive Binds (c : Cursor) : Prop
  | ends {d : Cursor} {ps : List Pair} {k : Attempts} (h : Passes binding c d ps k)
    (shorter : d.rest.length < c.rest.length) (lt : c.pos < d.pos) (hk : k.pos < d.pos)
    (reads : ∀ s l b w, (Unfinished.bindings s ⟨l, b⟩ w).readFrom c =
      (Unfinished.bindings s ⟨l, (lowerAll ps).reverse ++ b⟩ true).readFrom d)
  | fails {k : Attempts} {y : Rejection} (h : Fails binding c k) (hk : k.Rejects c.pos y)
    (reads : ∀ s f w, (Unfinished.bindings s f w).readFrom c = .error y)

theorem binds (hc : c.rest.head? = some '(')
    (h : ∀ d, d.IsSkipped → d.rest.length < c.rest.length → Encloses 0 d) : Binds c := by
  obtain ⟨b, hb⟩ := exists_past (g := .opening) hc
  have hopen : ∀ s f w, (Unfinished.bindings s f w).readFrom c =
      (Unfinished.name s (f.push (Token.leaf ⟨.glyph .opening, c.pos⟩))).readFrom b := fun s f w =>
    hb.reads (by simp) rfl
  by_cases hname : Word.isName b.word
  · have hne : b.word ≠ [] := by
      intro hnil
      simp [hnil, Word.isName] at hname
    have hpass := passes_word rfl matches_name hname
    have hread : ∀ s f, (Unfinished.name s f).readFrom b =
        (Unfinished.operand (.binding (f.push (Token.leaf ⟨.word b.word, b.pos⟩)) :: s) {}).readFrom
          b.afterWord.skip := fun s f => by
      have hstep : (Unfinished.name s f).step ⟨.word b.word, b.pos⟩ = _ := if_pos hname
      rw [Unfinished.readFrom_word hne, Unfinished.goOn_of_step hstep, Unfinished.readFrom_skip]
    have hlt : c.pos < b.afterWord.skip.pos := hb.lt.trans (lt_skip_afterWord hne)
    have hshorter : b.afterWord.skip.rest.length < c.rest.length :=
      (length_skip_afterWord_lt hne).trans hb.shorter
    rcases h _ b.afterWord.isSkipped_skip hshorter with
      @⟨d, e, closing, ps, k, henc, hd, hlt', hk, -, hlowered, -, hclose⟩ | ⟨hstarts, -⟩ |
      @⟨k, y, henc, hk, -, hy⟩
    · refine .ends (hb.passes (hpass.seq_of_nil henc)) (hd.trans hshorter) (hlt.trans hlt') hk
        fun s l b w => ?_
      rw [hopen, hread, hclose, lowerAll_glyph, List.singleton_append, lowerAll, hlowered]
      rfl
    · have hfail := hb.fails (hpass.seq_fails_of_nil (fails_enclosed hstarts))
      refine .fails hfail (.of_tries (.mk_self _ _) (by simp) (by decide) hlt) fun s f w => ?_
      rw [hopen, hread, Unfinished.readFrom_of_startsNothing rfl hstarts]
      rfl
    · exact .fails (hb.fails (hpass.seq_fails_of_nil henc)) (hk.mono hlt.le) fun s f w => by
        rw [hopen, hread, hy]
  · rw [Bool.not_eq_true] at hname
    have hfail := hb.fails ((fails_word rfl matches_name hname).seq enclosed)
    refine .fails hfail (.of_tries (.mk_self _ _) (by simp) (by decide) hb.lt) fun s f w => ?_
    rw [hopen]
    exact Unfinished.readFrom_of_none hb.isSkipped rfl (fun _ => rfl) (fun _ _ _ => rfl)
      (if_neg (by simp [hname]))

/-! ## All bindings -/

/-- What comes of the bindings after the first one. -/
inductive Bound (c : Cursor) : Prop
  | ends {d : Cursor} {ps : List Pair} {k : Attempts} (h : Passes (.again binding) c d ps k)
    (hd : d.skip.rest.head? ≠ some '(') (shorter : d.rest.length ≤ c.rest.length)
    (le : c.pos ≤ d.pos) (hk : k.Tries d.skip.pos [.glyph .opening])
    (reads : ∀ s l b, (Unfinished.bindings s ⟨l, b⟩ true).readFrom c =
      (Unfinished.bindings s ⟨l, (lowerAll ps).reverse ++ b⟩ true).readFrom d.skip)
  | fails {d : Cursor} {ps : List Pair} {k : Attempts} {y : Rejection}
    (h : Passes (.again binding) c d ps k) (hd : d.skip.rest.head? = some '(')
    (le : c.pos ≤ d.skip.pos) (hk : k.Rejects d.skip.pos y)
    (reads : ∀ s f, (Unfinished.bindings s f true).readFrom c = .error y)

theorem bound (h : ∀ d, d.IsSkipped → d.rest.length < c.rest.length → Encloses 0 d) : Bound c := by
  induction hlen : c.rest.length using Nat.strong_induction_on generalizing c with
  | _ n ih =>
    have hle := c.length_skip_le
    by_cases hhead : c.skip.rest.head? = some '('
    · rcases binds hhead fun d hd hlt => h d hd (hlt.trans_le hle) with
        @⟨d, ps, k, hbinding, hshorter, hlt, hk, hreads⟩ | @⟨k, y, hbinding, hk, hy⟩
      · have hd : d.rest.length < c.rest.length := hshorter.trans_le hle
        have hpos : c.pos ≤ d.pos := c.pos_le_skip.trans hlt.le
        rcases ih _ (hlen ▸ hd) (fun b hb hlt => h b hb (hlt.trans hd)) rfl with
          @⟨d', ps', k', hagain, hd', hshorter', hle', hk', hreads'⟩ |
          @⟨d', ps', k', y, hagain, hd', hle', hk', hy⟩
        · have hlt' := hk.trans_le (hle'.trans d'.pos_le_skip)
          refine .ends (hbinding.again hagain) hd' (hshorter'.trans hd.le) (hpos.trans hle')
            ((Attempts.Tries.of_lt hlt').merge hk') fun s l b => ?_
          rw [← Unfinished.readFrom_skip, hreads, hreads', lowerAll_append, List.reverse_append,
            List.append_assoc]
        · refine .fails (hbinding.again hagain) hd' (hpos.trans hle')
            (hk'.merge_left (hk.le.trans hle')) fun s f => ?_
          rw [← Unfinished.readFrom_skip, hreads, hy]
      · refine .fails hbinding.again hhead c.pos_le_skip hk fun s f => ?_
        rw [← Unfinished.readFrom_skip, hy]
    · refine .ends ((fails_glyph (g := .opening) hhead).seq _).again hhead le_rfl le_rfl
        (.mk_self _ _) fun s l b => ?_
      rw [Unfinished.readFrom_skip]
      rfl

/-! ## After the bindings -/

/-- **What comes of a let form** from its first binding on. -/
inductive LetRest (c : Cursor) : Prop
  | ends {d : Cursor} {ps : List Pair} {k : Attempts} (h : Passes bindings c d ps k)
    (shorter : d.rest.length < c.rest.length) (lt : c.pos < d.pos) (hk : k.pos < d.pos)
    (endsAt : EndsAt (lowerAll ps) d.pos)
    (reads : ∀ s l b, (Unfinished.bindings s ⟨l, b⟩ false).readFrom c =
      (Unfinished.ended s l [.spanning .letForm (b.reverse ++ lowerAll ps)]).readFrom d)
  | fails {k : Attempts} {y : Rejection} (h : Fails bindings c k) (hk : ∀ n < c.pos, k.Rejects n y)
    (reads : ∀ s f, (Unfinished.bindings s f false).readFrom c = .error y)

/-- The end of the bindings. -/
theorem letRest_of_bindings {ps : List Pair} {k : Attempts} (hplus : Passes (plus binding) c d ps k)
    (hlt : c.pos < d.skip.pos) (hshorter : d.skip.rest.length < c.rest.length)
    (hd : d.skip.rest.head? ≠ some '(') (hk : k.Tries d.skip.pos [.glyph .opening])
    (hread : ∀ s l b, (Unfinished.bindings s ⟨l, b⟩ false).readFrom c =
      (Unfinished.bindings s ⟨l, (lowerAll ps).reverse ++ b⟩ true).readFrom d.skip)
    (h : ∀ d, d.IsSkipped → d.rest.length < c.rest.length → Encloses 0 d) : LetRest c := by
  by_cases hhead : d.skip.rest.head? = some ')'
  · obtain ⟨b, hb⟩ := exists_past (g := .closing) hhead
    have hbody : ∀ s f, (Unfinished.bindings s f true).readFrom d.skip =
        (Unfinished.operand (.body (f.push (Token.leaf ⟨.glyph .closing, d.skip.pos⟩)) :: s)
          {}).readFrom b := fun s f => hb.reads (by simp) rfl
    rcases h b hb.isSkipped (hb.shorter.trans hshorter) with
      @⟨d', e, closing, qs, k', henc, hshorter', hlt', hk', -, hlowered, hstop, hclose⟩ |
      ⟨hstarts, -⟩ | @⟨k', y, henc, hk', -, hy⟩
    · refine .ends (hplus.seq (hb.passes henc)) (hshorter'.trans (hb.shorter.trans hshorter))
        (hlt.trans (hb.lt.trans hlt')) ?_ ?_ fun s l b' => ?_
      · rw [Attempts.pos_merge]
        exact max_lt (hk.le.trans_lt (hb.lt.trans hlt')) hk'
      · rw [lowerAll_append, lowerAll_glyph, hlowered]
        exact ⟨closing, by simp, hstop⟩
      · rw [hread, hbody, hclose, lowerAll_append, lowerAll_glyph, hlowered]
        simp [Frame.close, OpenLet.push]
    · have hlt' : c.pos < b.pos := hlt.trans hb.lt
      refine .fails (hplus.seq_fails (hb.fails (fails_enclosed hstarts)))
        (y := ⟨b.pos, [.form .expr]⟩) (fun n hn => ?_) fun s f => ?_
      · refine (Attempts.Rejects.merge_left ?_ hk.le).mono (hn.le.trans hlt.le)
        exact .of_tries (.mk_self _ _) (by simp) (by decide) hb.lt
      · rw [hread, hbody, Unfinished.readFrom_of_startsNothing rfl hstarts]
        rfl
    · refine .fails (hplus.seq_fails (hb.fails henc)) (y := y) (fun n hn => ?_) fun s f => ?_
      · exact ((hk'.mono hb.lt.le).merge_left hk.le).mono (hn.le.trans hlt.le)
      · rw [hread, hbody, hy]
  · have hfail : Fails bindings c (k.merge ⟨d.skip.pos, [.glyph .closing]⟩) :=
      hplus.seq_fails ((fails_glyph (g := .closing) hhead).seq _)
    have hk' := hk.merge (.mk_self d.skip.pos [.glyph .closing])
    refine .fails hfail (fun n hn => .of_tries hk' (by simp) (by decide) (hn.trans hlt))
      fun s f => ?_
    rw [hread]
    refine Unfinished.readFrom_of_none d.isSkipped_skip rfl (fun _ => rfl) (fun g r hr => ?_) rfl
    cases g with
    | opening => exact absurd (by rw [hr]; rfl) hd
    | closing => exact absurd (by rw [hr]; rfl) hhead
    | op => rfl

theorem letRest (hc : c.IsSkipped)
    (h : ∀ d, d.IsSkipped → d.rest.length < c.rest.length → Encloses 0 d) : LetRest c := by
  by_cases hhead : c.rest.head? = some '('
  · rcases binds hhead h with @⟨d₁, ps₁, k₁, hfirst, hshorter₁, hlt₁, hk₁, hreads₁⟩ |
      @⟨k, y, hfail, hk, hy⟩
    · have hpos : c.pos < d₁.skip.pos := hlt₁.trans_le d₁.pos_le_skip
      have hlen : d₁.skip.rest.length < c.rest.length := d₁.length_skip_le.trans_lt hshorter₁
      have hread : ∀ s l b, (Unfinished.bindings s ⟨l, b⟩ false).readFrom c =
          (Unfinished.bindings s ⟨l, (lowerAll ps₁).reverse ++ b⟩ true).readFrom d₁.skip :=
        fun s l b => by rw [hreads₁, Unfinished.readFrom_skip]
      rcases bound (c := d₁.skip) fun b hb hlt => h b hb (hlt.trans hlen) with
        @⟨d₂, ps₂, k₂, hagain, hd₂, hshorter₂, hle₂, hk₂, hreads₂⟩ |
        @⟨d₂, ps₂, k₂, y, hagain, hd₂, hle₂, hk₂, hy⟩
      · have hle : d₁.pos ≤ d₂.skip.pos := d₁.pos_le_skip.trans (hle₂.trans d₂.pos_le_skip)
        refine letRest_of_bindings (hfirst.seq (hagain.star d₁.isSkipped_skip)) (hlt₁.trans_le hle)
          (d₂.length_skip_le.trans_lt (hshorter₂.trans_lt hlen)) hd₂
          ((Attempts.Tries.of_lt (hk₁.trans_le hle)).merge hk₂) (fun s l b => ?_) h
        rw [hread, hreads₂, lowerAll_append, List.reverse_append, List.append_assoc]
      · have hne : d₂.skip.rest.head? ≠ some (Glyph.char .closing) := by
          rw [hd₂]
          decide
        have hfail := (hfirst.seq (hagain.star d₁.isSkipped_skip)).seq_fails
          ((fails_glyph hne).seq enclosed)
        have hk := (hk₂.merge_left (hk₁.le.trans (d₁.pos_le_skip.trans hle₂))).merge_right
          (a := ⟨d₂.skip.pos, [.glyph .closing]⟩) le_rfl
        exact .fails hfail (fun n hn => hk.mono (hn.le.trans (hpos.le.trans hle₂))) fun s f => by
          rw [hread, hy]
    · exact .fails ((hfail.seq _).seq _) (fun n hn => hk.mono hn.le) fun s f => hy _ _ _
  · have hfail : Fails bindings c ⟨c.pos, [.glyph .opening]⟩ :=
      (((fails_glyph (g := .opening) hhead).seq _).seq _).seq _
    refine .fails hfail (fun n hn => .of_tries (.mk_self _ _) (by simp) (by decide) hn)
      fun s f => ?_
    refine Unfinished.readFrom_of_none hc rfl (fun _ => rfl) (fun g r hr => ?_) rfl
    cases g with
    | opening => exact absurd (by rw [hr]; rfl) hhead
    | closing | op => rfl

end ArithLine.OrderedChoice

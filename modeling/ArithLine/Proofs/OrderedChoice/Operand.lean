import ArithLine.Proofs.OrderedChoice.LetForm

/-!
# Operands with ordered choice

The grammar tries a let form, a numeral, a name and a group in this order and takes a word that is
none of these for an unknown one. The reader knows with the first token which of them it is, but for
a parenthesis: then it waits until it has seen what stands after the reserved word.

* `word_ends`, `signed_ends`: operands that are one token.
* `reads_of_group`: a parenthesis without the reserved word.
* `reads_of_letForm`, `reads_of_reserved_group`, `reads_of_reserved`: a parenthesis and the
  reserved word, by what stands next.
* `readsAtom`: all together, by induction on what is left of the line.
-/

namespace ArithLine.OrderedChoice

open Pattern

variable {b c d : Cursor} {ps : List Pair} {j k : Attempts} {r : List Char}

/-- An operand with its parse trees. No operator makes it longer. -/
theorem atom_ends {ts : List Tree} (h : Passes atom c d ps k)
    (shorter : d.rest.length < c.rest.length) (lt : c.pos < d.pos) (hk : k.pos < d.pos)
    (lowered : lowerAll ps = ts) (starts : StartsAt ts c.pos) (ends : EndsAt ts d.pos)
    (reads : ∀ s l, (Unfinished.operand s l).readFrom c = (Unfinished.ended s l ts).readFrom d) :
    Role.atom.Ends c d ts ps k where
  passes := h
  shorter := shorter
  lt := lt
  tries := .of_lt (hk.trans_le d.pos_le_skip)
  stops := by simp [Role.atom]
  sublist := .refl _
  lowered := lowered
  startsAt := lowered ▸ starts
  endsAt := lowered ▸ ends
  reads e := (reads e.1 e.2).trans (Unfinished.readFrom_skip _ _).symm

/-! ## One token -/

theorem span_operand (t : Token) : t.operand.span = t.span := by
  unfold Token.operand
  split
  · split <;> rfl
  · rfl

theorem token_ends {t : Token} {p : Pair} (h : Passes atom c d [p] k) (hk : k.pos ≤ c.pos)
    (hlower : p.lower = some t.operand) (hspan : t.span = ⟨c.pos, d.pos⟩) (hlt : c.pos < d.pos)
    (hshorter : d.rest.length < c.rest.length)
    (hreads : ∀ s l, (Unfinished.operand s l).readFrom c =
      (Unfinished.ended s l [t.operand]).readFrom d) : Role.atom.Ends c d [t.operand] [p] k := by
  have hoperand : t.operand.span = ⟨c.pos, d.pos⟩ := (span_operand t).trans hspan
  exact atom_ends h hshorter hlt (hk.trans_lt hlt) (lowerAll_singleton hlower)
    ⟨_, rfl, congrArg Span.start hoperand⟩ ⟨_, rfl, congrArg Span.stop hoperand⟩ hreads

theorem head?_ne_of_word (h : c.word ≠ []) (g : Glyph) : c.rest.head? ≠ some g.char := by
  intro hg
  refine h (Cursor.word_eq_nil_iff.2 ?_)
  rw [hg]
  rcases g with _ | _ | (_ | _ | _ | _) <;> rfl

/-- A let form needs a parenthesis. -/
theorem fails_letForm (h : c.rest.head? ≠ some '(') :
    Fails (call (.form .letForm)) c ⟨c.pos, [.glyph .opening]⟩ :=
  ((fails_glyph (g := .opening) h).seq _).call_of_one (r := .form .letForm) rfl

theorem fails_varForm (h : Word.isName c.word = false) :
    Fails (call (.form .var)) c ⟨c.pos, [.name]⟩ :=
  (fails_word rfl matches_name h).call_of_one (r := .form .var) rfl

theorem fails_numeralForm (hc : c.rest.head? ≠ some '-') (h : Word.isNumeral c.word = false) :
    Fails (call (.form .numeral)) c ⟨c.pos, [.numeral]⟩ :=
  (fails_numeral (.inr ⟨hc, rfl⟩) h).call_of_one (r := .form .numeral) rfl

/-- **A word** is an operand of some kind. -/
theorem word_passes (h : c.word ≠ []) :
    ∃ p k, Passes atom c c.afterWord [p] k ∧ k.pos ≤ c.pos ∧
      p.lower = some (Token.operand ⟨.word c.word, c.pos⟩) := by
  have hlet := fails_letForm (head?_ne_of_word h .opening)
  have hminus : c.rest.head? ≠ some '-' := head?_ne_of_word h (.op .sub)
  cases hclass : Word.classify c.word with
  | numeral =>
    have hnumeral := (passes_numeral (.inr ⟨hminus, rfl⟩)
      (Word.classify_eq_numeral_iff.1 hclass)).call (r := .form .numeral) rfl
    refine ⟨_, _, hlet.choice_passes (hnumeral.choice _), by simp, ?_⟩
    rw [Cursor.upTo_of_append c.word_append.symm]
    simp only [Token.operand, hclass]
    rfl
  | name =>
    have hname := Word.classify_eq_name_iff.1 hclass
    have hnumeral : Word.isNumeral c.word = false := Bool.eq_false_iff.2 fun hnumeral => by
      rw [Word.not_isName_of_isNumeral hnumeral] at hname
      cases hname
    have hvar := (passes_word rfl matches_name hname).call (r := .form .var) rfl
    refine ⟨_, _, hlet.choice_passes ((fails_numeralForm hminus hnumeral).choice_passes
      (hvar.choice _)), by simp, ?_⟩
    simp only [Token.operand, hclass]
    rfl
  | unknown =>
    have hnumeral : Word.isNumeral c.word = false := Bool.eq_false_iff.2 fun hnumeral => by
      rw [Word.classify_eq_numeral_iff.2 hnumeral] at hclass
      cases hclass
    have hname : Word.isName c.word = false := Bool.eq_false_iff.2 fun hname => by
      rw [Word.classify_eq_name_iff.2 hname] at hclass
      cases hclass
    have hgroup := (fails_glyph (head?_ne_of_word h .opening)).seq enclosed
    have hunknown := passes_word rfl matches_unknown (c := c) (by simpa using h)
    refine ⟨_, _, hlet.choice_passes ((fails_numeralForm hminus hnumeral).choice_passes
      ((fails_varForm hname).choice_passes (hgroup.choice_passes hunknown))), by simp, ?_⟩
    simp only [Token.operand, hclass]
    rfl

theorem word_ends (h : c.word ≠ []) :
    ∃ p k, Role.atom.Ends c c.afterWord [Token.operand ⟨.word c.word, c.pos⟩] [p] k := by
  obtain ⟨p, k, hpass, hk, hlower⟩ := word_passes h
  refine ⟨p, k, token_ends hpass hk hlower rfl (lt_afterWord h) (length_afterWord_lt h)
    fun s l => ?_⟩
  rw [Unfinished.readFrom_word h]
  exact Unfinished.goOn_of_step rfl

/-- **A minus and the digits that it touches** are a numeral where an operand is wanted. -/
theorem signed_ends (hc : c.rest = '-' :: r) (hr : Word.isNumeral (Cursor.word ⟨c.pos + 1, r⟩)) :
    ∃ p k, Role.atom.Ends c (Cursor.afterWord ⟨c.pos + 1, r⟩)
      [Token.operand ⟨.signed (Cursor.word ⟨c.pos + 1, r⟩), c.pos⟩] [p] k := by
  have hword := (isWordChar_of_isNumeral hr).1
  have hlet : Fails (call (.form .letForm)) c _ := fails_letForm (by simp [hc])
  have hnumeral := (passes_numeral (d := ⟨c.pos + 1, r⟩) (.inl ⟨hc, rfl⟩) hr).call
    (r := .form .numeral) rfl
  have happend : c.rest = ('-' :: Cursor.word ⟨c.pos + 1, r⟩) ++
      (Cursor.afterWord ⟨c.pos + 1, r⟩).rest := by
    rw [hc, List.cons_append, Cursor.word_append]
  have hspan : Token.span ⟨.signed (Cursor.word ⟨c.pos + 1, r⟩), c.pos⟩ =
      ⟨c.pos, (Cursor.afterWord ⟨c.pos + 1, r⟩).pos⟩ := by
    simp [Token.span, Token.stop, Lexeme.chars, Cursor.afterWord, utf8Size_minus, Nat.add_assoc]
  refine ⟨_, _, token_ends (hlet.choice_passes (hnumeral.choice _)) (by simp) ?_ hspan ?_ ?_
    fun s l => ?_⟩
  · rw [Cursor.upTo_of_append happend, ← hspan]
    rfl
  · exact (Nat.lt_succ_self c.pos).trans (lt_afterWord hword)
  · rw [hc]
    exact (length_afterWord_lt hword).trans (Nat.lt_succ_self _)
  · rw [Unfinished.readFrom_signed hc hr]
    exact Unfinished.goOn_of_step rfl

/-! ## Groups -/

theorem word_eq_nil_of_glyph {g : Glyph} (hc : c.rest.head? = some g.char) : c.word = [] := by
  by_contra h
  exact head?_ne_of_word h g hc

/-- Where a parenthesis stands, a group is taken if no let form is. -/
theorem passes_of_group (hc : c.rest.head? = some '(') (hlet : Fails (call (.form .letForm)) c j)
    (h : Passes (seq (glyph .opening) enclosed) c d ps k) (hj : j.pos < d.pos) (hk : k.pos < d.pos)
    (hd : c.pos < d.pos) : ∃ k', Passes atom c d ps k' ∧ k'.pos < d.pos := by
  have hword := word_eq_nil_of_glyph (g := .opening) hc
  have hnumeral := fails_numeralForm (c := c) (by rw [hc]; decide) (by rw [hword]; rfl)
  have hvar := fails_varForm (c := c) (by rw [hword]; rfl)
  refine ⟨_, hlet.choice_passes (hnumeral.choice_passes (hvar.choice_passes (h.choice _))), ?_⟩
  simp only [Attempts.pos_merge, max_lt_iff]
  exact ⟨hj, hd, hd, hk⟩

/-- Where a parenthesis stands and neither a let form nor a group is taken, nothing is. -/
theorem fails_of_group (hc : c.rest.head? = some '(') (hlet : Fails (call (.form .letForm)) c j)
    (h : Fails (seq (glyph .opening) enclosed) c k) (hk : c.pos < k.pos) :
    Fails atom c (j.merge k) := by
  have hword := word_eq_nil_of_glyph (g := .opening) hc
  have hnumeral := fails_numeralForm (c := c) (by rw [hc]; decide) (by rw [hword]; rfl)
  have hvar := fails_varForm (c := c) (by rw [hword]; rfl)
  have hunknown := fails_word rfl matches_unknown (c := c) (by rw [hword]; rfl)
  have := hlet.choice (hnumeral.choice (hvar.choice (h.choice hunknown)))
  rwa [Attempts.merge_of_gt (a := k) hk, Attempts.merge_of_lt (b := k) hk,
    Attempts.merge_of_lt (b := k) hk] at this

/-- Unless the reserved word stands next, a parenthesis that stands for an operand opens a group. -/
theorem readFrom_opened (hb : b.IsSkipped) (hstarts : ¬ b.StartsNothing)
    (hw : b.word ≠ Word.reserved) (s : List Frame) (l : Level) (o : Tree) :
    (Unfinished.opened s l o).readFrom b =
      (Unfinished.operand (.group l o :: s) {}).readFrom b := by
  rcases b.starts hb with hnothing | hword | ⟨r, hr, hnumeral⟩ | ⟨r, hr⟩
  · exact absurd hnothing hstarts
  · rw [Unfinished.readFrom_word hword, Unfinished.readFrom_word hword]
    have hstep : (Unfinished.opened s l o).step ⟨.word b.word, b.pos⟩ = _ :=
      if_neg fun heq => hw (Lexeme.word.inj heq)
    rw [Unfinished.goOn_of_step hstep, Unfinished.goOn_of_step rfl]
  · rw [Unfinished.readFrom_signed hr hnumeral, Unfinished.readFrom_signed hr hnumeral]
    rfl
  · rw [Unfinished.readFrom_glyph (g := .opening) hr (by simp),
      Unfinished.readFrom_glyph (g := .opening) hr (by simp)]
    rfl

/-- **What comes of a group**, once a let form has been tried and the reader has gone on to the
expression inside. -/
theorem reads_of_encloses {n : ℕ} (hc : c.rest.head? = some '(') (hb : Past .opening c b)
    (hlet : Fails (call (.form .letForm)) c j) (hcj : c.pos < j.pos)
    (hj : j.pos ≤ b.pos ∨ j.pos < n) (hstarts : ¬ b.StartsNothing)
    (hread : ∀ s l, (Unfinished.operand s l).readFrom c =
      (Unfinished.operand (.group l (Token.leaf ⟨.glyph .opening, c.pos⟩) :: s) {}).readFrom b)
    (h : Encloses n b) : Role.atom.Reads 0 c := by
  rcases h with @⟨d, e, closing, ps, k, h, hshorter, hlt, hk, hn, hlowered, hstop, hclose⟩ |
    ⟨hnothing, -⟩ | @⟨k, y, h, hk, hn, hy⟩
  · have hjd : j.pos < d.pos := hj.elim (fun hj => hj.trans_lt hlt) fun hj => hj.trans_le hn
    obtain ⟨k', hpass, hk'⟩ := passes_of_group hc hlet (hb.passes h) hjd hk (hb.lt.trans hlt)
    have hlower : lowerAll (.ofGlyph .opening c.pos :: ps) =
        [Token.leaf ⟨.glyph .opening, c.pos⟩, e, closing] := by
      rw [lowerAll_glyph, hlowered]
    exact .ends (atom_ends hpass (hshorter.trans hb.shorter) (hb.lt.trans hlt) hk' hlower
      ⟨_, rfl, rfl⟩ ⟨_, rfl, hstop⟩ fun s l => (hread s l).trans (hclose _ _)) (Nat.zero_le _)
  · exact absurd hnothing hstarts
  · have hjk : j.pos < k.pos := hj.elim (fun hj => hj.trans_lt hk.lt) fun hj => hj.trans_le hn
    have hrej : k.Rejects j.pos y := ⟨hjk, hk.rejection_eq⟩
    exact .stuck (fails_of_group hc hlet (hb.fails h) (hcj.trans hjk))
      ((hrej.merge_left le_rfl).mono hcj.le) (Nat.zero_le _) fun e => (hread _ _).trans (hy _ _)

/-- **A parenthesis without the reserved word** opens a group. -/
theorem reads_of_group (hc : c.rest.head? = some '(') (hb : Past .opening c b)
    (hw : b.word ≠ Word.reserved) (h : Encloses 0 b) : Role.atom.Reads 0 c := by
  have hread : ∀ s l, (Unfinished.operand s l).readFrom c =
      (Unfinished.opened s l (Token.leaf ⟨.glyph .opening, c.pos⟩)).readFrom b := fun s l =>
    hb.reads (by simp) rfl
  have hlet : Fails (call (.form .letForm)) c ⟨b.pos, [.reserved]⟩ :=
    (hb.fails ((fails_word rfl matches_reserved (by simpa using hw)).seq _)).call_of_lt rfl hb.lt
  by_cases hstarts : b.StartsNothing
  · have hfail := fails_of_group hc hlet (hb.fails (fails_enclosed hstarts)) hb.lt
    rw [Attempts.merge_same] at hfail
    refine .stuck hfail (y := ⟨b.pos, [.form .expr, .reserved]⟩) ⟨hb.lt, rfl⟩ (Nat.zero_le _)
      fun e => ?_
    exact (hread _ _).trans (Unfinished.readFrom_of_startsNothing rfl hstarts)
  · exact reads_of_encloses hc hb hlet hb.lt (.inl le_rfl) hstarts
      (fun s l => (hread s l).trans (readFrom_opened hb.isSkipped hstarts hw s l _)) h

/-! ## The reserved word -/

theorem word_ne_nil_of_reserved (hw : b.word = Word.reserved) : b.word ≠ [] := by
  rw [hw]
  decide

theorem fails_letForm_of_reserved (hb : Past .opening c b) (hw : b.word = Word.reserved)
    (h : Fails (seq (glyph .opening) bindings) b.afterWord.skip k) (hk : c.pos < k.pos) :
    Fails (call (.form .letForm)) c k := by
  have hres := passes_word rfl matches_reserved (c := b) (by simp [hw])
  exact (hb.fails (hres.seq_fails_of_nil h)).call_of_lt rfl hk

theorem readFrom_reserved (hb : Past .opening c b) (hw : b.word = Word.reserved) (s : List Frame)
    (l : Level) : (Unfinished.operand s l).readFrom c =
      (Unfinished.reserved s l (Token.leaf ⟨.glyph .opening, c.pos⟩) ⟨.word b.word, b.pos⟩).readFrom
        b.afterWord.skip := by
  have hstep : (Unfinished.opened s l (Token.leaf ⟨.glyph .opening, c.pos⟩)).step
      ⟨.word b.word, b.pos⟩ = _ := if_pos (congrArg Lexeme.word hw)
  rw [Unfinished.readFrom_skip, hb.reads (v := .opened s l (Token.leaf ⟨.glyph .opening, c.pos⟩))
    (by simp) rfl, Unfinished.readFrom_word (word_ne_nil_of_reserved hw),
    Unfinished.goOn_of_step hstep]

/-- A word alone is an expression where no operator follows. -/
theorem word_alone (h : b.word ≠ []) (hop : ∀ o : Op, b.afterWord.skip.rest.head? ≠ some o.glyph) :
    ∃ ps k,
      Role.sum.Ends b b.afterWord (none, none, [Token.operand ⟨.word b.word, b.pos⟩]) ps k := by
  obtain ⟨p, k, hx⟩ := word_ends h
  obtain ⟨k₁, hx₁⟩ := Tier.ends_alone (T := .product) hx fun o _ => hop o
  obtain ⟨k₂, hx₂⟩ := Tier.ends_alone (T := .sum) hx₁ fun o _ => hop o
  exact ⟨_, _, hx₂⟩

/-- A word and an operator after it. Attempts get past this operator. -/
theorem word_chain (h : b.word ≠ []) {o : Op} (ho : b.afterWord.skip.rest.head? = some o.glyph)
    (hrest : ∀ d, d.IsSkipped → d.rest.length < b.rest.length → Role.atom.Reads 0 d) :
    Role.sum.Reads (b.afterWord.skip.pos + 1) b := by
  obtain ⟨p, k, hx⟩ := word_ends h
  by_cases htight : o = .mul ∨ o = .div
  · exact readsSum_of_product (Tier.reads_of_head (T := .product) htight hx le_rfl ho hrest) hrest
  · have hloose : o = .add ∨ o = .sub := by
      cases o <;> simp at htight ⊢
    obtain ⟨k₁, hx₁⟩ := Tier.ends_alone (T := .product) hx fun o' ho' heq => by
      rw [ho] at heq
      exact htight (Op.glyph_injective (Option.some.inj heq) ▸ ho')
    exact Tier.reads_of_head (T := .sum) hloose hx₁ le_rfl ho fun d hd hlt =>
      Tier.product.reads_above (hrest d hd hlt) fun e he hlt' => hrest e he (hlt'.trans hlt)

/-- A let form that has ended. -/
theorem letForm_passes {e : Cursor} (hb : Past .opening c b) (hw : b.word = Word.reserved)
    (he : Past .opening b.afterWord.skip e) (h : Passes bindings e d ps k)
    (hends : EndsAt (lowerAll ps) d.pos) :
    let ts := Token.leaf ⟨.glyph .opening, c.pos⟩ :: Token.leaf ⟨.word b.word, b.pos⟩ ::
      Token.leaf ⟨.glyph .opening, b.afterWord.skip.pos⟩ :: lowerAll ps
    ∃ p, Passes (call (.form .letForm)) c d [p] k ∧ p.lower = some (.spanning .letForm ts) ∧
      Tree.extent ts = ⟨c.pos, d.pos⟩ := by
  intro ts
  have hres := passes_word rfl matches_reserved (c := b) (by simp [hw])
  have hlet := (hb.passes (hres.seq_of_nil (he.passes h))).call (r := .form .letForm) rfl
  have hlower : lowerAll (.ofGlyph .opening c.pos ::
      ([.mk .reserved b.word ⟨b.pos, b.afterWord.pos⟩ []] ++
        .ofGlyph .opening b.afterWord.skip.pos :: ps)) = ts := by
    rw [lowerAll_glyph, List.singleton_append, lowerAll, lowerAll_glyph]
    rfl
  have hspan : Tree.extent ts = ⟨c.pos, d.pos⟩ :=
    extent_eq ⟨_, rfl, rfl⟩ (hends.append [Token.leaf ⟨.glyph .opening, c.pos⟩,
      Token.leaf ⟨.word b.word, b.pos⟩, Token.leaf ⟨.glyph .opening, b.afterWord.skip.pos⟩])
  refine ⟨_, hlet, ?_, hspan⟩
  rw [Pair.lower, hlower, ← hspan]
  rfl

/-- **A second parenthesis** after the reserved word makes a let form certain. -/
theorem reads_of_letForm {e : Cursor} (hc : c.rest.head? = some '(') (hb : Past .opening c b)
    (hw : b.word = Word.reserved) (hhead : b.afterWord.skip.rest.head? = some '(')
    (he : Past .opening b.afterWord.skip e) (h : LetRest e) : Role.atom.Reads 0 c := by
  have hne := word_ne_nil_of_reserved hw
  have hca : c.pos < b.afterWord.skip.pos := hb.lt.trans (lt_skip_afterWord hne)
  have hread : ∀ s l, (Unfinished.operand s l).readFrom c =
      (Unfinished.bindings s ⟨l, [Token.leaf ⟨.glyph .opening, b.afterWord.skip.pos⟩,
        Token.leaf ⟨.word b.word, b.pos⟩, Token.leaf ⟨.glyph .opening, c.pos⟩]⟩ false).readFrom e :=
    fun s l => (readFrom_reserved hb hw s l).trans (he.reads (by simp) rfl)
  rcases h with @⟨d, ps, k, hpass, hshorter, hlt, hk, hends, hreads⟩ | @⟨k, y, hfail, hk, hy⟩
  · obtain ⟨p, hlet, hlower, hspan⟩ := letForm_passes hb hw he hpass hends
    refine .ends (atom_ends (hlet.choice _) ?_ (hca.trans (he.lt.trans hlt)) hk
      (lowerAll_singleton hlower) ⟨_, rfl, congrArg Span.start hspan⟩
      ⟨_, rfl, congrArg Span.stop hspan⟩ fun s l => (hread s l).trans (hreads _ _ _))
      (Nat.zero_le _)
    exact hshorter.trans (he.shorter.trans ((length_skip_afterWord_lt hne).trans hb.shorter))
  · have hk' := hk _ he.lt
    have hlet := fails_letForm_of_reserved hb hw (he.fails hfail) (hca.trans hk'.lt)
    obtain ⟨ps', k₁, hx⟩ := word_alone hne fun o heq => by
      rw [hhead] at heq
      cases o <;> simp [Op.glyph] at heq
    obtain ⟨k₂, hgroup, hk₂⟩ := enclosed_fails hx (by rw [hhead]; decide)
    have hpos : k₂.pos = b.afterWord.skip.pos := hk₂.pos_eq (by simp)
    exact .stuck (fails_of_group hc hlet (hb.fails hgroup) (hca.trans_eq hpos.symm))
      ((hk'.merge_right hpos.le).mono hca.le) (Nat.zero_le _) fun e =>
        (hread _ _).trans (hy _ _)

/-- **A closing parenthesis or an operator** after the reserved word: the word is an unknown one
in a group. -/
theorem reads_of_reserved_group {g : Glyph} (hc : c.rest.head? = some '(') (hb : Past .opening c b)
    (hw : b.word = Word.reserved) (hg : g ≠ .opening)
    (hhead : b.afterWord.skip.rest.head? = some g.char)
    (hrest : ∀ d, d.IsSkipped → d.rest.length < b.rest.length → Role.atom.Reads 0 d) :
    Role.atom.Reads 0 c := by
  have hne := word_ne_nil_of_reserved hw
  have hca : c.pos < b.afterWord.skip.pos := hb.lt.trans (lt_skip_afterWord hne)
  have hopening : b.afterWord.skip.rest.head? ≠ some (Glyph.char .opening) := by
    rw [hhead]
    exact fun heq => hg (Glyph.char_injective (Option.some.inj heq))
  have hlet := fails_letForm_of_reserved hb hw ((fails_glyph hopening).seq _) hca
  have henc : Encloses (b.afterWord.skip.pos + 1) b := by
    cases g with
    | opening => exact absurd rfl hg
    | closing =>
      obtain ⟨ps, k, hx⟩ := word_alone hne fun o heq => by
        rw [hhead] at heq
        cases o <;> simp [Op.glyph, Glyph.char] at heq
      exact encloses_of_closing hx le_rfl hhead
    | op o => exact encloses (word_chain hne hhead hrest)
  refine reads_of_encloses hc hb hlet hca (.inr (Nat.lt_succ_self _))
    (fun hstarts => hne (word_eq_nil_of_startsNothing hstarts)) (fun s l => ?_) henc
  obtain ⟨p, k, hx⟩ := word_ends hne
  obtain ⟨r, hr⟩ := List.head?_eq_some_iff.1 hhead
  -- the reader has waited for this glyph, which it takes in as after any other word
  have hstep : ∀ o, ∃ v, (Unfinished.ended (.group l o :: s) {}
      [Token.operand ⟨.word b.word, b.pos⟩]).step ⟨.glyph g, b.afterWord.skip.pos⟩ = some v := by
    intro o
    rcases g with _ | _ | (_ | _ | _ | _)
    · exact absurd rfl hg
    all_goals exact ⟨_, rfl⟩
  obtain ⟨v, hv⟩ := hstep (Token.leaf ⟨.glyph .opening, c.pos⟩)
  have hv' : (Unfinished.reserved s l (Token.leaf ⟨.glyph .opening, c.pos⟩)
      ⟨.word b.word, b.pos⟩).step ⟨.glyph g, b.afterWord.skip.pos⟩ = some v :=
    (if_neg fun heq => hg (Lexeme.glyph.inj heq)).trans hv
  have hglyph : ∀ {u : Unfinished}, u.wantsOperand = false →
      u.step ⟨.glyph g, b.afterWord.skip.pos⟩ = some v →
        u.readFrom b.afterWord.skip = v.readFrom ⟨b.afterWord.skip.pos + 1, r⟩ := fun hu hstep =>
    (Unfinished.readFrom_glyph hr (by simp [hu])).trans (Unfinished.goOn_of_step hstep)
  rw [readFrom_reserved hb hw, hglyph rfl hv', ← hglyph rfl hv]
  exact (hx.reads (.group l (Token.leaf ⟨.glyph .opening, c.pos⟩) :: s, {})).symm

/-- **Anything else** after the reserved word is refused. -/
theorem reads_of_reserved (hc : c.rest.head? = some '(') (hb : Past .opening c b)
    (hw : b.word = Word.reserved)
    (hhead : ∀ g : Glyph, b.afterWord.skip.rest.head? ≠ some g.char) : Role.atom.Reads 0 c := by
  have hne := word_ne_nil_of_reserved hw
  have hca : c.pos < b.afterWord.skip.pos := hb.lt.trans (lt_skip_afterWord hne)
  have hlet := fails_letForm_of_reserved hb hw ((fails_glyph (hhead .opening)).seq _) hca
  obtain ⟨ps, k₁, hx⟩ := word_alone hne fun o => hhead (.op o)
  obtain ⟨k, hgroup, hk⟩ := enclosed_fails hx (hhead .closing)
  have hpos : k.pos = b.afterWord.skip.pos := hk.pos_eq (by simp)
  have hrej := rejects_ended hx [.glyph .opening, .glyph .closing] (by decide) (by simp)
    ((Attempts.Tries.mk_self _ [.glyph .opening]).merge hk)
  refine .stuck (fails_of_group hc hlet (hb.fails hgroup) (hca.trans_eq hpos.symm))
    (hrej.mono hb.lt.le) (Nat.zero_le _) fun e => ?_
  refine (readFrom_reserved hb hw _ _).trans ?_
  exact Unfinished.readFrom_of_none b.afterWord.isSkipped_skip rfl (fun _ => rfl)
    (fun g r hr => absurd (by rw [hr]; rfl) (hhead g)) rfl

/-! ## All operands -/

/-- What comes of a parenthesis, from what comes of the operands after it. -/
theorem reads_of_parenthesis (hhead : c.rest.head? = some '(')
    (hrest : ∀ d, d.IsSkipped → d.rest.length < c.rest.length → Role.atom.Reads 0 d) :
    Role.atom.Reads 0 c := by
  have hencloses : ∀ d : Cursor, d.IsSkipped → d.rest.length < c.rest.length → Encloses 0 d :=
    fun d hd hlt => encloses <| readsSum_of_atom (hrest d hd hlt) fun e he hlt' =>
      hrest e he (hlt'.trans hlt)
  obtain ⟨b, hb⟩ := exists_past (g := .opening) hhead
  by_cases hw : b.word = Word.reserved
  · by_cases hopening : b.afterWord.skip.rest.head? = some '('
    · obtain ⟨e, he⟩ := exists_past (g := .opening) hopening
      have hafter : e.rest.length < c.rest.length :=
        he.shorter.trans ((length_skip_afterWord_lt (word_ne_nil_of_reserved hw)).trans hb.shorter)
      exact reads_of_letForm hhead hb hw hopening he <| letRest he.isSkipped fun d hd hlt =>
        hencloses d hd (hlt.trans hafter)
    · by_cases hglyph : ∃ g : Glyph, b.afterWord.skip.rest.head? = some g.char
      · obtain ⟨g, hg⟩ := hglyph
        refine reads_of_reserved_group hhead hb hw ?_ hg fun d hd hlt =>
          hrest d hd (hlt.trans hb.shorter)
        rintro rfl
        exact hopening hg
      · exact reads_of_reserved hhead hb hw (not_exists.1 hglyph)
  · exact reads_of_group hhead hb hw (hencloses b hb.isSkipped hb.shorter)

/-- **What comes of an operand.** -/
theorem readsAtom (hc : c.IsSkipped) : Role.atom.Reads 0 c := by
  induction hlen : c.rest.length using Nat.strong_induction_on generalizing c with
  | _ n ih =>
    have hrest : ∀ d : Cursor, d.IsSkipped → d.rest.length < c.rest.length → Role.atom.Reads 0 d :=
      fun d hd hlt => ih _ (hlen ▸ hlt) hd rfl
    -- only a parenthesis leads back to operands
    rcases c.starts hc with hnothing | hword | ⟨r, hr, hnumeral⟩ | ⟨r, hr⟩
    · exact .nothing hnothing (fails_atom hnothing) (Nat.zero_le _)
    · obtain ⟨p, k, h⟩ := word_ends hword
      exact .ends h (Nat.zero_le _)
    · obtain ⟨p, k, h⟩ := signed_ends hr hnumeral
      exact .ends h (Nat.zero_le _)
    · exact reads_of_parenthesis (by rw [hr]; rfl) hrest

end ArithLine.OrderedChoice

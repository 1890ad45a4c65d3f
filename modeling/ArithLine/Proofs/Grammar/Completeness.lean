import ArithLine.Proofs.Grammar.Extent
import ArithLine.Proofs.Grammar.Run

/-!
# Every derivation is read

The reader never waits for what a derivation does not have next. What it has open when the
tokens of a derivation begin decides how these are read:

* `ReadsAtom`: an atom leaves what is open alone and stands for itself.
* `ReadsOperand`: an operand of a chain may open a chain of its own, and the operator that
  comes next closes that (`Level.Settles`).
* `reads_links`: each operator with the operand after it makes the open chain longer.
* `reads_expr`: an expression, after any parenthesis that may stand before one, leaves a
  level that closes into its parse tree.
* `Derives.ofLine`: a line with a derivation is read, and its tree is that derivation.

The induction is on the size of the derivation: an expression stands again inside
parentheses, in a binding and in the body of a let form (`ReadsInside`).
-/

namespace ArithLine

open Grammar Derivation

/-! ## Chains -/

namespace OpenChain

/-- The children of a chain so far, in order. -/
def parts (c : Option OpenChain) : List Tree := c.elim [] fun c => c.before.reverse

/-- The number of operands of a chain so far. -/
def count (c : Option OpenChain) : ℕ := c.elim 0 operands

theorem extend?_eq_some {c : Option OpenChain} {o : Op} (hc : ∀ d ∈ c, d.op = o)
    (operand : List Tree) (leaf : Tree) : ∃ d, extend? c operand o leaf = some d ∧ d.op = o ∧
      parts (some d) = parts c ++ operand ++ [leaf] ∧ count (some d) = count c + 1 := by
  cases c with
  | none => exact ⟨_, rfl, rfl, by simp [parts], rfl⟩
  | some c =>
    obtain rfl := hc c rfl
    exact ⟨_, if_pos rfl, rfl, by simp [parts], rfl⟩

end OpenChain

namespace Level

/-- A level with another chain of an operator's kind; in a new sum nothing is open. -/
def withChain (l : Level) (o : Op) (c : Option OpenChain) : Level :=
  if o.isTight then { l with product := c } else { sum := c }

/-- After an operand, `l'` and `ts` are what a level `l` and an operand `us` have become: just
these if the operand is an atom, and these once the product is closed if it is a product. -/
def Settles (o : Op) (l' : Level) (ts : List Tree) (l : Level) (us : List Tree) (next : ℕ) : Prop :=
  if o.isTight then l' = l ∧ ts = us else l'.sum = l.sum ∧ l'.closeProduct ts next = us

theorem operator?_of_settles {o : Op} {l' base : Level} {c : Option OpenChain} {ts us : List Tree}
    {t : Token} (h : Settles o l' ts (base.withChain o c) us t.start) :
    l'.operator? ts o t =
      (OpenChain.extend? c us o t.leaf).map fun d => base.withChain o (some d) := by
  by_cases ho : o.isTight
  · simp only [Settles, withChain, ho, if_true] at h
    obtain ⟨rfl, rfl⟩ := h
    simp [operator?, withChain, ho]
  · simp only [Settles, withChain, ho, if_false, Bool.false_eq_true] at h
    obtain ⟨h1, rfl⟩ := h
    simp [operator?, withChain, ho, h1]

end Level

namespace Grammar.Derivation

variable {line : List Char} {stop : ℕ}

/-- The tokens are read as one operand, whatever the level. -/
def ReadsAtom (line : List Char) (d : Derivation) : Prop :=
  ∀ (stack : List Frame) (l : Level),
    (Unfinished.operand stack l).run d.yield = some (.ended stack l (d.lower line))

/-- The tokens are read as one operand of an operator, whatever its chain holds so far. -/
def ReadsOperand (line : List Char) (o : Op) (stop : ℕ) (d : Derivation) : Prop :=
  ∀ (stack : List Frame) (base : Level) (c : Option OpenChain), ∃ l' ts,
    (Unfinished.operand stack (base.withChain o c)).run d.yield = some (.ended stack l' ts) ∧
      l'.Settles o ts (base.withChain o c) (d.lower line) stop

/-- The tokens are read as a binding. -/
def ReadsBinding (line : List Char) (d : Derivation) : Prop :=
  ∀ (stack : List Frame) (f : OpenLet) (hasSome : Bool),
    (Unfinished.bindings stack f hasSome).run d.yield =
      some (.bindings stack ⟨f.outer, (d.lower line).reverse ++ f.before⟩ true)

/-- The tokens are read as a whole expression. -/
def ReadsExpr (line : List Char) (stop : ℕ) (d : Derivation) : Prop :=
  ∀ stack : List Frame, ∃ l ts,
    (Unfinished.operand stack {}).run d.yield = some (.ended stack l ts) ∧
      [l.close ts stop] = d.lower line

/-- The operators of a chain, each with the operand after it, make the open chain longer. -/
theorem reads_links {o : Op} {k : ℕ} {es : List Derivation}
    (hes : List.Forall₂ Of (linkWord o k) es) (hs : Spaced line (yieldAll es) stop)
    (hr : ∀ e ∈ es, Of (.layer (operand o)) e → ∀ stop, Spaced line e.yield stop →
      ReadsOperand line o stop e)
    {stack : List Frame} {base l' : Level} {c : Option OpenChain} {ts us : List Tree}
    (hc : ∀ d ∈ c, d.op = o)
    (h : l'.Settles o ts (base.withChain o c) us (nextStart (yieldAll es) stop)) :
    ∃ c₂ l₂ ts₂ us₂, (Unfinished.ended stack l' ts).run (yieldAll es) = some (.ended stack l₂ ts₂) ∧
      l₂.Settles o ts₂ (base.withChain o c₂) us₂ stop ∧ (∀ d ∈ c₂, d.op = o) ∧
      OpenChain.parts c₂ ++ us₂ = OpenChain.parts c ++ us ++ lowerAll line es ∧
      OpenChain.count c₂ = OpenChain.count c + k := by
  induction k generalizing es c l' ts us with
  | zero =>
    obtain rfl := List.forall₂_nil_left_iff.1 hes
    exact ⟨c, l', ts, us, rfl, h, hc, by simp [lowerAll], rfl⟩
  | succ k ih =>
    obtain ⟨n, e, es, he, hes', rfl⟩ := links_succ_iff.1 hes
    obtain ⟨d, hd, hdo, hparts, hcount⟩ :=
      OpenChain.extend?_eq_some hc us (Token.leaf ⟨.glyph (.op o), n⟩)
    have hstep : (Unfinished.ended stack l' ts).step ⟨.glyph (.op o), n⟩ =
        some (.operand stack (base.withChain o (some d))) := by
      simp only [Unfinished.step, Unfinished.stepEnded]
      rw [Level.operator?_of_settles h, hd]; rfl
    have hs' : Spaced line (e.yield ++ yieldAll es) stop := hs.2.2
    obtain ⟨hse, hses⟩ := spaced_append.1 hs'
    -- the operand before this operator goes into the chain, and the next one is open
    obtain ⟨l₁, ts₁, hrun, hset⟩ := hr e (by simp) he _ hse stack base (some d)
    obtain ⟨c₂, l₂, ts₂, us₂, hrun₂, hset₂, hop₂, hparts₂, hcount₂⟩ :=
      ih hes' hses (fun e he => hr e (by simp [he])) (by simpa using hdo) hset
    refine ⟨c₂, l₂, ts₂, us₂, ?_, hset₂, hop₂, ?_, by omega⟩
    · rw [yieldAll, yield, List.singleton_append, Unfinished.run_cons, hstep, Option.bind_some,
        yieldAll, Unfinished.run_append, hrun, Option.bind_some, hrun₂]
    · rw [hparts₂, hparts]
      simp [lowerAll, lower]

/-- The tokens of a chain are read as one chain of its operator. -/
theorem reads_chain {o : Op} {d : Derivation} (hd : Of (.rule (.chain o)) d)
    (hs : Spaced line d.yield stop)
    (hr : ∀ e, sizeOf e < sizeOf d → Of (.layer (operand o)) e → ∀ stop, Spaced line e.yield stop →
      ReadsOperand line o stop e) (stack : List Frame) (base : Level) :
    ∃ c l ts us, (Unfinished.operand stack (base.withChain o none)).run d.yield =
        some (.ended stack l ts) ∧
      l.Settles o ts (base.withChain o (some c)) us stop ∧ [c.close us stop] = d.lower line := by
  obtain ⟨k, e, es, he, hes, rfl⟩ := of_chain_iff.1 hd
  have hskip := hd.valid.skip_extent hs
  obtain ⟨hse, hses⟩ := spaced_append.1 hs
  obtain ⟨l₁, ts₁, hrun, hset⟩ := hr e (by simp; omega) he _ hse stack base none
  -- the first operator opens the chain, so there is one when the last operand has been read
  obtain ⟨c, l, ts, us, hrun₂, hset₂, hop, hparts, hcount⟩ := reads_links hes hses
    (fun e he => hr e (by have := List.sizeOf_lt_of_mem he; simp; omega)) (by simp) hset
  cases c with
  | none => simp [OpenChain.count] at hcount
  | some c =>
    refine ⟨c, l, ts, us, ?_, hset₂, close_eq (hop c rfl) ?_ ?_ hskip⟩
    · rw [yield, yieldAll, Unfinished.run_append, hrun, Option.bind_some, hrun₂]
    · simpa [OpenChain.parts, lowerAll] using hparts
    · have := length_links hes
      simp [OpenChain.count] at hcount
      simp; omega

/-- The tokens of some bindings are read as bindings. -/
theorem reads_bindings {bs : List Derivation} (hb : ∀ b ∈ bs, Of (.layer .binding) b)
    (hs : Spaced line (yieldAll bs) stop)
    (hr : ∀ b ∈ bs, Of (.layer .binding) b → ∀ stop, Spaced line b.yield stop → ReadsBinding line b)
    (stack : List Frame) (f : OpenLet) (hasSome : Bool) :
    (Unfinished.bindings stack f hasSome).run (yieldAll bs) =
      some (.bindings stack ⟨f.outer, (lowerAll line bs).reverse ++ f.before⟩
        (hasSome || !bs.isEmpty)) := by
  induction bs generalizing f hasSome with
  | nil => simp [yieldAll, lowerAll]
  | cons b bs ih =>
    obtain ⟨hsb, hsbs⟩ := spaced_append.1 hs
    rw [yieldAll, Unfinished.run_append, hr b (by simp) (hb b (by simp)) _ hsb stack f hasSome,
      Option.bind_some, ih (fun b h => hb b (by simp [h])) hsbs (fun b h => hr b (by simp [h]))]
    simp [lowerAll]

/-- After the tokens of an expression, a closing parenthesis ends the innermost open form. -/
theorem run_expr_closing {d : Derivation} {n : ℕ} (hr : ReadsExpr line n d) (f : Frame)
    (stack : List Frame) : ∃ t, d.lower line = [t] ∧
      (Unfinished.operand (f :: stack) {}).run (d.yield ++ [⟨.glyph .closing, n⟩]) =
        Unfinished.stepClosing (f :: stack) t (Token.leaf ⟨.glyph .closing, n⟩) := by
  obtain ⟨l, ts, hrun, hclose⟩ := hr (f :: stack)
  refine ⟨_, hclose.symm, ?_⟩
  rw [Unfinished.run_append, hrun, Option.bind_some, Unfinished.run_cons]
  exact Option.bind_fun_some _

/-- Every expression inside a derivation is read. -/
def ReadsInside (line : List Char) (d : Derivation) : Prop :=
  ∀ e, sizeOf e < sizeOf d → Of (.rule .expr) e → ∀ stop, Spaced line e.yield stop →
    ReadsExpr line stop e

theorem sizeOf_part_lt {n : Nonterminal} {ds : List Derivation} {e : Derivation} (he : e ∈ ds) :
    sizeOf e < sizeOf (node n ds) := by
  have := List.sizeOf_lt_of_mem he
  simp; omega

theorem ReadsInside.part {n : Nonterminal} {ds : List Derivation} {e : Derivation}
    (h : ReadsInside line (node n ds)) (he : e ∈ ds) : ReadsInside line e :=
  fun a ha => h a (ha.trans (sizeOf_part_lt he))

/-- A binding reads the expression in it like any other, up to its closing parenthesis. -/
theorem reads_binding {d : Derivation} (hi : ReadsInside line d) (hd : Of (.layer .binding) d)
    (hs : Spaced line d.yield stop) : ReadsBinding line d := by
  obtain ⟨m, w, n, e, k, hw, he, rfl⟩ := of_binding_iff.1 hd
  intro stack f hasSome
  have hyield : (node (.layer .binding) [leaf (.glyph .opening) ⟨.glyph .opening, m⟩,
      leaf .name ⟨.word w, n⟩, e, leaf (.glyph .closing) ⟨.glyph .closing, k⟩]).yield =
      [⟨.glyph .opening, m⟩, ⟨.word w, n⟩] ++ (e.yield ++ [⟨.glyph .closing, k⟩]) := by
    simp [yield, yieldAll]
  rw [hyield] at hs ⊢
  have hse := (spaced_append.1 (spaced_append.1 hs).2).1
  obtain ⟨t, hlow, hrun⟩ := run_expr_closing (hi e (sizeOf_part_lt (by simp)) he k hse)
    (.binding ((f.push (Token.leaf ⟨.glyph .opening, m⟩)).push (Token.leaf ⟨.word w, n⟩))) stack
  rw [Unfinished.run_append]
  -- the parenthesis and the name are kept with the binding while its expression is read
  have hstep : (Unfinished.bindings stack f hasSome).run [⟨.glyph .opening, m⟩, ⟨.word w, n⟩] =
      some (.operand (.binding ((f.push (Token.leaf ⟨.glyph .opening, m⟩)).push
        (Token.leaf ⟨.word w, n⟩)) :: stack) {}) := by
    simp [Unfinished.step, hw]
  rw [hstep, Option.bind_some, hrun]
  simp [Unfinished.stepClosing, OpenLet.push, lower, lowerAll, hlow]

theorem reads_letForm {d : Derivation} (hi : ReadsInside line d) (hd : Of (.rule .letForm) d)
    (hs : Spaced line d.yield stop) : ReadsAtom line d := by
  obtain ⟨a, b, c, bs, m, e, n, hne, hbs, he, rfl⟩ := of_letForm_iff.1 hd
  intro stack l
  have hyield : (node (.rule .letForm) (letHead a b c ++ (bs ++ letTail m e n))).yield =
      yieldAll (letHead a b c) ++ (yieldAll bs ++ ([⟨.glyph .closing, m⟩] ++
        (e.yield ++ [⟨.glyph .closing, n⟩]))) := by
    simp [yield, yieldAll, letTail]
  rw [hyield] at hs ⊢
  obtain ⟨hsb, hs⟩ := spaced_append.1 (spaced_append.1 hs).2
  have hse := (spaced_append.1 (spaced_append.1 hs).2).1
  -- the level around the let form is kept with it and comes back at its last parenthesis
  have hhead : (Unfinished.operand stack l).run (yieldAll (letHead a b c)) =
      some (.bindings stack ⟨l, (lowerAll line (letHead a b c)).reverse⟩ false) := by
    simp [letHead, yieldAll, yield, lowerAll, lower, Unfinished.step, Unfinished.stepOperand]
  have hbind := reads_bindings hbs hsb (fun x hx hb _ hsx => reads_binding
    (hi.part (by simp [hx])) hb hsx) stack
    ⟨l, (lowerAll line (letHead a b c)).reverse⟩ false
  have hsome : (false || !bs.isEmpty) = true := by simpa using hne
  obtain ⟨t, hlow, hrun⟩ := run_expr_closing (hi e (sizeOf_part_lt (by simp [letTail])) he n hse)
    (.body ⟨l, Token.leaf ⟨.glyph .closing, m⟩ ::
      ((lowerAll line bs).reverse ++ (lowerAll line (letHead a b c)).reverse)⟩) stack
  rw [Unfinished.run_append, hhead, Option.bind_some, Unfinished.run_append, hbind,
    Option.bind_some, hsome, List.singleton_append, Unfinished.run_cons]
  exact hrun.trans (by simp [Unfinished.stepClosing, OpenLet.push, lower, lowerAll, hlow, letTail,
    extent, Tree.spanning])

theorem reads_atom {d : Derivation} (hi : ReadsInside line d) (hd : Of (.layer .atom) d)
    (hs : Spaced line d.yield stop) : ReadsAtom line d := by
  obtain ⟨ds, hds, rfl⟩ := of_atom_iff.1 hd
  intro stack l
  cases hds with
  | letForm h =>
    rw [yield, yieldAll_singleton] at hs ⊢
    rw [reads_letForm (hi.part (by simp)) h hs stack l]
    simp [lower, lowerAll]
  | numeral h =>
    obtain ⟨⟨g | w | w, n⟩, ht, rfl⟩ := of_numeral_iff.1 h
    · cases ht
    · simp [yield, yieldAll, lower, lowerAll, Unfinished.step, Unfinished.stepOperand, extent,
        Tree.spanning, Token.operand, Word.classify_eq_numeral_iff.2 ht]
    · simp [yield, yieldAll, lower, lowerAll, Unfinished.step, Unfinished.stepOperand, extent,
        Tree.spanning, Token.operand]
  | var h =>
    obtain ⟨w, n, hw, rfl⟩ := of_var_iff.1 h
    simp [yield, yieldAll, lower, lowerAll, Unfinished.step, Unfinished.stepOperand, extent,
      Tree.spanning, Token.operand, Word.classify_eq_name_iff.2 hw]
  | unknown h =>
    obtain ⟨w, n, hw, rfl⟩ := of_unknown_iff.1 h
    simp [yield, yieldAll, lower, lowerAll, Unfinished.step, Unfinished.stepOperand,
      Token.operand, Word.classify, hw]
  | @group e m n he =>
    have hyield : (node (.layer .atom) [leaf (.glyph .opening) ⟨.glyph .opening, m⟩, e,
        leaf (.glyph .closing) ⟨.glyph .closing, n⟩]).yield =
        [⟨.glyph .opening, m⟩] ++ (e.yield ++ [⟨.glyph .closing, n⟩]) := by
      simp [yield, yieldAll]
    rw [hyield] at hs ⊢
    have hse := (spaced_append.1 (spaced_append.1 hs).2).1
    obtain ⟨t, hlow, hrun⟩ := run_expr_closing (hi e (sizeOf_part_lt (by simp)) he n hse)
      (.group l (Token.leaf ⟨.glyph .opening, m⟩)) stack
    -- the group may start with the reserved word, but no parenthesis opens after it then
    obtain ⟨u, us, hu⟩ := List.exists_cons_of_ne_nil he.valid.yield_ne_nil
    rw [hu, List.cons_append] at hrun
    have := Unfinished.run_opened hrun (by simp)
    rw [hu]
    exact this.trans (by simp [lower, lowerAll, hlow])

theorem reads_product {d : Derivation} (hi : ReadsInside line d) (hd : Of (.layer .product) d)
    (hs : Spaced line d.yield stop) (stack : List Frame) (base : Level)
    (hb : base.product = none) : ∃ l ts,
      (Unfinished.operand stack base).run d.yield = some (.ended stack l ts) ∧
        l.sum = base.sum ∧ l.closeProduct ts stop = d.lower line := by
  obtain ⟨e, ⟨o, ho, he⟩ | he, rfl⟩ := of_product_iff.1 hd
  · rw [yield, yieldAll_singleton] at hs ⊢
    -- the operands of a product are atoms
    have hr : ∀ a, sizeOf a < sizeOf e → Of (.layer (operand o)) a → ∀ stop,
        Spaced line a.yield stop → ReadsOperand line o stop a := by
      intro a ha hoa stop hsa stack base c
      rw [operand, if_pos ho] at hoa
      exact ⟨_, _, reads_atom (fun b hb => hi b (hb.trans (ha.trans (sizeOf_part_lt (by simp)))))
        hoa hsa stack _, by simp [Level.Settles, ho]⟩
    obtain ⟨c, l, ts, us, hrun, hset, hclose⟩ := reads_chain he hs hr stack base
    simp only [Level.Settles, Level.withChain, ho, if_true, ← hb] at hrun hset
    obtain ⟨rfl, rfl⟩ := hset
    exact ⟨_, ts, hrun, rfl, by simp [Level.closeProduct, hclose, lower, lowerAll]⟩
  · rw [yield, yieldAll_singleton] at hs ⊢
    refine ⟨base, _, reads_atom (hi.part (by simp)) he hs stack base, rfl, ?_⟩
    simp [Level.closeProduct, hb, lower, lowerAll]

theorem reads_sum {d : Derivation} (hi : ReadsInside line d) (hd : Of (.layer .sum) d)
    (hs : Spaced line d.yield stop) (stack : List Frame) : ∃ l ts,
      (Unfinished.operand stack {}).run d.yield = some (.ended stack l ts) ∧
        l.close ts stop = Tree.spanning .expr (d.lower line) := by
  obtain ⟨e, ⟨o, ho, he⟩ | he, rfl⟩ := of_sum_iff.1 hd
  · rw [yield, yieldAll_singleton] at hs ⊢
    -- the operands of a sum are products, and no product is open where one of them starts
    have hr : ∀ a, sizeOf a < sizeOf e → Of (.layer (operand o)) a → ∀ stop,
        Spaced line a.yield stop → ReadsOperand line o stop a := by
      intro a ha hoa stop hsa stack base c
      rw [operand, if_neg (by simp [ho])] at hoa
      obtain ⟨l, ts, hrun, hset⟩ := reads_product
        (fun b hb => hi b (hb.trans (ha.trans (sizeOf_part_lt (by simp))))) hoa hsa stack
        (base.withChain o c) (by simp [Level.withChain, ho])
      exact ⟨l, ts, hrun, by simpa [Level.Settles, ho] using hset⟩
    obtain ⟨c, l, ts, us, hrun, hset, hclose⟩ := reads_chain he hs hr stack {}
    simp only [Level.Settles, Level.withChain, ho, Bool.false_eq_true, if_false] at hrun hset
    refine ⟨l, ts, hrun, ?_⟩
    -- closing the level closes the product of its last operand, and then the sum
    rw [Level.close, hset.1, hset.2]
    simp [hclose, lower, lowerAll]
  · rw [yield, yieldAll_singleton] at hs ⊢
    obtain ⟨l, ts, hrun, hsum, hclose⟩ := reads_product (hi.part (by simp)) he hs stack {} rfl
    refine ⟨l, ts, hrun, ?_⟩
    rw [Level.close, hsum, hclose]
    simp [lower, lowerAll]

/-- **Every expression is read.** -/
theorem reads_expr {d : Derivation} (hd : Of (.rule .expr) d) (hs : Spaced line d.yield stop) :
    ReadsExpr line stop d := by
  induction hn : sizeOf d using Nat.strong_induction_on generalizing d stop with
  | h n ih =>
    subst hn
    have hi : ReadsInside line d := fun e he hoe stop hse => ih _ he hoe hse rfl
    obtain ⟨e, he, rfl⟩ := of_expr_iff.1 hd
    intro stack
    rw [yield, yieldAll_singleton] at hs ⊢
    obtain ⟨l, ts, hrun, hclose⟩ := reads_sum (hi.part (by simp)) he hs stack
    exact ⟨l, ts, hrun, by rw [hclose]; simp [lower, lowerAll, extent, Tree.spanning]⟩

end Grammar.Derivation

/-- The tokens of a derivation of a line are taken in, and leave its parse tree. -/
theorem Derives.exists_run {line : String} {d : Derivation} (h : Derives line d) :
    ∃ l ts, Unfinished.start.run d.yield = some (.ended [] l ts) ∧ d.lower line.toList =
      [.node .program [l.close ts (byteLength line.toList)] ⟨0, byteLength line.toList⟩] := by
  obtain ⟨e, he, rfl⟩ := of_program_iff.1 ⟨h.symbol, h.valid⟩
  have hs := h.covers.spaced [] rfl
  rw [List.nil_append, Nat.zero_add, yield, yieldAll_singleton] at hs
  obtain ⟨l, ts, hrun, hclose⟩ := reads_expr he hs []
  refine ⟨l, ts, by rwa [yield, yieldAll_singleton], ?_⟩
  rw [lower, lowerAll_singleton, ← hclose]
  rfl

/-- **Every derivation of a line is what is read of it.** -/
theorem Derives.ofLine {line : String} {d : Derivation} (h : Derives line d) :
    ∃ t, Tree.ofLine line = .ok t ∧ d.lower line.toList = [t] := by
  obtain ⟨l, ts, hrun, hlow⟩ := h.exists_run
  -- the line has the tokens of the derivation, but that a minus may be set apart in these
  have hline := Unfinished.run_of_splits h.covers.splits hrun
  refine ⟨_, ?_, hlow⟩
  rw [Tree.ofLine, Unfinished.read_eq_ok_iff, utf8ByteSize_eq]
  exact ⟨_, hline, rfl⟩

end ArithLine

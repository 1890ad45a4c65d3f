import ArithLine.Proofs.Grammar.Extent
import ArithLine.Proofs.Grammar.Lexing

/-!
# What has been read of a line

The invariant of the reader: what is open is made of derivations, and their tokens in
order are the tokens that have been taken in.

* `OpenChain.Reads`: the operands of an open chain, each with the operator after it.
* `LevelReads`: at most one sum, and in its last operand at most one product.
* `OpenLet.Reads`, `StackReads`: the let forms and parentheses that are open.
* `Unfinished.Reads`: all of what has been read.

What is open can be closed: a chain (`OpenChain.Reads.close`), the product of a sum
(`ChainReads.closeProduct`) and a level (`LevelReads.close`) become the derivation that has
their tokens and the parse tree that the reader makes of them.
-/

namespace ArithLine

open Grammar Derivation

variable {line : List Char} {stop : ℕ}

namespace Grammar.Derivation

/-- Operands of a chain, each with the operator after it. -/
def openWord (o : Op) (k : ℕ) : List Symbol :=
  (List.replicate k [.layer (operand o), .glyph (.op o)]).flatten

theorem openWord_succ (o : Op) (k : ℕ) :
    openWord o (k + 1) = openWord o k ++ [.layer (operand o), .glyph (.op o)] := by
  rw [openWord, List.replicate_succ', List.flatten_append]
  simp [openWord]

theorem openWord_concat (o : Op) (k : ℕ) :
    openWord o k ++ [.layer (operand o)] = .layer (operand o) :: linkWord o k := by
  induction k with
  | zero => rfl
  | succ k ih =>
    rw [openWord, List.replicate_succ, List.flatten_cons, ← openWord, List.append_assoc, ih,
      linkWord_succ]
    rfl

end Grammar.Derivation

/-- The children of a chain so far are those of some derivations. -/
structure OpenChain.Reads (line : List Char) (c : OpenChain) (ds : List Derivation) : Prop where
  parts : List.Forall₂ Of (openWord c.op c.operands) ds
  lowered : lowerAll line ds = c.before.reverse
  pos : 0 < c.operands

/-- What has been read of a chain of one kind, or nothing if there is none. -/
def ChainReads (line : List Char) (tight : Bool) (c : Option OpenChain) (ds : List Derivation) :
    Prop :=
  match c with
  | none => ds = []
  | some c => c.op.isTight = tight ∧ c.Reads line ds

/-- An operator adds the operand before it to its chain. -/
theorem ChainReads.extend {tight : Bool} {c : Option OpenChain} {c' : OpenChain}
    {ds : List Derivation} {d : Derivation} {o : Op} {n : ℕ} (h : ChainReads line tight c ds) (ho : o.isTight = tight)
    (hd : Of (.layer (operand o)) d)
    (hc : OpenChain.extend? c (d.lower line) o (Token.leaf ⟨.glyph (.op o), n⟩) = some c') :
    ChainReads line tight (some c') (ds ++ [d, leaf (.glyph (.op o)) ⟨.glyph (.op o), n⟩]) := by
  have hlast : List.Forall₂ Of [.layer (operand o), .glyph (.op o)]
      [d, leaf (.glyph (.op o)) ⟨.glyph (.op o), n⟩] :=
    .cons hd (.cons (of_glyph_iff.2 ⟨n, rfl⟩) .nil)
  cases c with
  | none =>
    obtain rfl : ds = [] := h
    cases hc
    exact ⟨ho, hlast, by simp [lowerAll, lower], Nat.one_pos⟩
  | some c =>
    obtain ⟨-, hp, hl, -⟩ := h
    simp only [OpenChain.extend?] at hc
    split at hc
    · next hco =>
      obtain rfl := hco
      cases hc
      refine ⟨ho, ?_, by simp [lowerAll, lower, hl], Nat.succ_pos _⟩
      rw [openWord_succ]
      exact parts_append_iff.2 ⟨_, _, hp, hlast, rfl⟩
    · cases hc

/-- A chain that is closed is a chain of the grammar. -/
theorem OpenChain.Reads.close {c : OpenChain} {ds : List Derivation} {d : Derivation}
    (h : c.Reads line ds) (hd : Of (.layer (operand c.op)) d)
    (hs : Spaced line (yieldAll ds ++ d.yield) stop) :
    Of (.rule (.chain c.op)) (node (.rule (.chain c.op)) (ds ++ [d])) ∧
      (node (.rule (.chain c.op)) (ds ++ [d])).lower line = [c.close (d.lower line) stop] := by
  obtain ⟨k, hk⟩ := Nat.exists_eq_add_of_lt h.pos
  have hparts : List.Forall₂ Of (.layer (operand c.op) :: linkWord c.op c.operands) (ds ++ [d]) := by
    rw [← openWord_concat]
    exact parts_append_iff.2 ⟨_, _, h.parts, one_part_iff.2 ⟨d, hd, rfl⟩, rfl⟩
  have hof : Of (.rule (.chain c.op)) (node (.rule (.chain c.op)) (ds ++ [d])) :=
    of_nonterminal_iff.2 ⟨_, mem_body_chain.2 ⟨k, by rw [hk, Nat.zero_add]⟩, _, hparts, rfl⟩
  refine ⟨hof, (close_eq rfl ?_ ?_ ?_).symm⟩
  · simp [lowerAll, h.lowered]
  · have := hparts.length_eq
    simp [linkWord] at this ⊢
    omega
  · exact hof.valid.skip_extent (by simpa [yieldAll] using hs)

/-- What has been read of the chains of a level. -/
def LevelReads (line : List Char) (l : Level) (ts : List Token) : Prop :=
  ∃ ss ps, ChainReads line false l.sum ss ∧ ChainReads line true l.product ps ∧
    ts = yieldAll ss ++ yieldAll ps

theorem levelReads_fresh : LevelReads line {} [] := ⟨[], [], rfl, rfl, rfl⟩

section Level

variable {l : Level} {ts : List Token} {a : Derivation}

/-- An operand of a sum, once its product is closed. -/
theorem ChainReads.closeProduct {ps : List Derivation} (h : ChainReads line true l.product ps)
    (ha : Of (.layer .atom) a) (hs : Spaced line (yieldAll ps ++ a.yield) stop) :
    ∃ d, Of (.layer .product) d ∧ d.lower line = l.closeProduct (a.lower line) stop ∧
      d.yield = yieldAll ps ++ a.yield := by
  unfold Level.closeProduct
  cases hp : l.product with
  | none =>
    rw [hp] at h
    obtain rfl : ps = [] := h
    exact ⟨node (.layer .product) [a], of_product_iff.2 ⟨a, .inr ha, rfl⟩, by simp [lower, lowerAll],
      by simp [yield, yieldAll]⟩
  | some c =>
    rw [hp] at h
    obtain ⟨ho, hc⟩ := h
    have hx : Of (.layer (operand c.op)) a := by rwa [operand, if_pos ho]
    obtain ⟨hof, hlow⟩ := hc.close hx hs
    exact ⟨node (.layer .product) [node (.rule (.chain c.op)) (ps ++ [a])],
      of_product_iff.2 ⟨_, .inl ⟨c.op, ho, hof⟩, rfl⟩, by rw [lower, lowerAll_singleton, hlow],
      by simp [yield, yieldAll]⟩

/-- A level that is closed is an expression of the grammar. -/
theorem LevelReads.close (h : LevelReads line l ts) (ha : Of (.layer .atom) a)
    (hs : Spaced line (ts ++ a.yield) stop) :
    ∃ e, Of (.rule .expr) e ∧ e.lower line = [l.close (a.lower line) stop] ∧
      e.yield = ts ++ a.yield := by
  obtain ⟨ss, ps, hss, hps, rfl⟩ := h
  rw [List.append_assoc] at hs
  obtain ⟨d, hd, hlow, hyield⟩ := hps.closeProduct ha (spaced_append.1 hs).2
  rw [← hyield] at hs
  unfold Level.close
  rw [← hlow]
  cases hsum : l.sum with
  | none =>
    rw [hsum] at hss
    obtain rfl : ss = [] := hss
    exact ⟨node (.rule .expr) [node (.layer .sum) [d]],
      of_expr_iff.2 ⟨_, of_sum_iff.2 ⟨d, .inr hd, rfl⟩, rfl⟩,
      by simp [lower, lowerAll, extent, Tree.spanning], by simp [yield, yieldAll, hyield]⟩
  | some c =>
    rw [hsum] at hss
    obtain ⟨ho, hc⟩ := hss
    have hx : Of (.layer (operand c.op)) d := by rwa [operand, if_neg (by simp [ho])]
    obtain ⟨hof, hclose⟩ := hc.close hx hs
    refine ⟨node (.rule .expr) [node (.layer .sum) [node (.rule (.chain c.op)) (ss ++ [d])]],
      of_expr_iff.2 ⟨_, of_sum_iff.2 ⟨_, .inl ⟨c.op, ho, hof⟩, rfl⟩, rfl⟩, ?_,
      by simp [yield, yieldAll, hyield]⟩
    rw [lower, lowerAll_layer, lowerAll_singleton, hclose]
    rfl

/-- An operator that a level takes in closes its product first, unless it is a product's own. -/
theorem LevelReads.operator? {l' : Level} {o : Op} {n : ℕ} (h : LevelReads line l ts)
    (ha : Of (.layer .atom) a) (hs : Spaced line (ts ++ a.yield) n)
    (hl : l.operator? (a.lower line) o ⟨.glyph (.op o), n⟩ = some l') :
    LevelReads line l' (ts ++ a.yield ++ [⟨.glyph (.op o), n⟩]) := by
  obtain ⟨ss, ps, hss, hps, rfl⟩ := h
  rw [List.append_assoc] at hs
  unfold Level.operator? at hl
  by_cases ho : o.isTight
  · rw [if_pos ho, Option.map_eq_some_iff] at hl
    obtain ⟨c, hc, rfl⟩ := hl
    have hx : Of (.layer (operand o)) a := by rwa [operand, if_pos ho]
    exact ⟨ss, _, hss, hps.extend ho hx hc, by simp [yieldAll, yield]⟩
  · rw [if_neg ho, Option.map_eq_some_iff] at hl
    obtain ⟨c, hc, rfl⟩ := hl
    -- the operator of a sum closes the product before it, and no product is open after it
    obtain ⟨d, hd, hlow, hyield⟩ := hps.closeProduct ha (spaced_append.1 hs).2
    have hx : Of (.layer (operand o)) d := by rwa [operand, if_neg ho]
    rw [← hlow] at hc
    exact ⟨_, [], hss.extend (by simpa using ho) hx hc, rfl, by simp [yieldAll, yield, hyield]⟩

end Level

/-- What has been read of a let form: its head and some bindings. -/
structure OpenLet.Reads (line : List Char) (f : OpenLet) (bs : List Derivation) (ts : List Token) :
    Prop where
  bindings : ∀ b ∈ bs, Of (.layer .binding) b
  parts : ∃ us a b c, LevelReads line f.outer us ∧
    f.before = (lowerAll line (letHead a b c ++ bs)).reverse ∧
      ts = us ++ yieldAll (letHead a b c ++ bs)

/-- What has been read of the forms that are open. -/
inductive StackReads (line : List Char) : List Frame → List Token → Prop
  | nil : StackReads line [] []
  | group {s : List Frame} {l : Level} {ts us : List Token} (n : ℕ) (hs : StackReads line s ts)
      (hl : LevelReads line l us) :
      StackReads line (.group l (Token.leaf ⟨.glyph .opening, n⟩) :: s)
        (ts ++ us ++ [⟨.glyph .opening, n⟩])
  | binding {s : List Frame} {f : OpenLet} {bs : List Derivation} {ts us : List Token} {w : List Char}
      (m n : ℕ) (hs : StackReads line s ts) (hf : f.Reads line bs us) (hw : Word.isName w) :
      StackReads line (.binding ((f.push (Token.leaf ⟨.glyph .opening, m⟩)).push
        (Token.leaf ⟨.word w, n⟩)) :: s) (ts ++ us ++ [⟨.glyph .opening, m⟩, ⟨.word w, n⟩])
  | body {s : List Frame} {f : OpenLet} {bs : List Derivation} {ts us : List Token} (n : ℕ)
      (hs : StackReads line s ts) (hf : f.Reads line bs us) (hb : bs ≠ []) :
      StackReads line (.body (f.push (Token.leaf ⟨.glyph .closing, n⟩)) :: s)
        (ts ++ us ++ [⟨.glyph .closing, n⟩])

/-- **What has been read of a line**: each part of an unfinished tree is made of derivations,
and their tokens in order are the tokens taken in. -/
inductive Unfinished.Reads (line : List Char) : Unfinished → List Token → Prop
  | opened {s : List Frame} {l : Level} {o : Tree} {ts : List Token}
      (hs : StackReads line (.group l o :: s) ts) : Reads line (opened s l o) ts
  | operand {s : List Frame} {l : Level} {ts us : List Token} (hs : StackReads line s ts)
      (hl : LevelReads line l us) : Reads line (operand s l) (ts ++ us)
  | ended {s : List Frame} {l : Level} {ts us : List Token} {a : Derivation}
      (hs : StackReads line s ts) (hl : LevelReads line l us) (ha : Of (.layer .atom) a) :
      Reads line (ended s l (a.lower line)) (ts ++ us ++ a.yield)
  | reserved {s : List Frame} {l : Level} {o : Tree} {ts : List Token} (n : ℕ)
      (hs : StackReads line (.group l o :: s) ts) :
      Reads line (reserved s l o ⟨.word Word.reserved, n⟩) (ts ++ [⟨.word Word.reserved, n⟩])
  | bindings {s : List Frame} {f : OpenLet} {hasSome : Bool} {bs : List Derivation}
      {ts us : List Token} (hs : StackReads line s ts) (hf : f.Reads line bs us)
      (hb : hasSome = !bs.isEmpty) : Reads line (bindings s f hasSome) (ts ++ us)
  | name {s : List Frame} {f : OpenLet} {bs : List Derivation} {ts us : List Token} (m : ℕ)
      (hs : StackReads line s ts) (hf : f.Reads line bs us) :
      Reads line (name s (f.push (Token.leaf ⟨.glyph .opening, m⟩)))
        (ts ++ us ++ [⟨.glyph .opening, m⟩])

end ArithLine

import ArithLine.Proofs.Grammar.Context
import ArithLine.Proofs.Grammar.Extent
import ArithLine.Proofs.Grammar.Relocation
import ArithLine.Proofs.Meaning
import ArithLine.Proofs.Placement

/-!
# What is reported about a derivation

A node passes on what is reported about its parts, but for two: about the name of a variable
nothing is reported, and about a let form nothing but itself.

* `Derivation.reports`: what is reported about the parse trees of a derivation.
* `Valid.node_cases`: the three kinds of node.
* `Valid.reports_move`: where tokens start elsewhere, so does what is reported about them.
* `Context.mem_reports_fill`: what is reported about a derivation is about one part of it, about
  the tokens on one side of this part, or about a let form around it.
-/

namespace ArithLine

open Grammar Derivation

namespace Diagnostic

/-- Whether a diagnostic is about the bytes from one of some tokens to another. -/
def IsWithin (ts : List Token) (x : Diagnostic) : Prop :=
  ∃ p ∈ ts, ∃ q ∈ ts, x.span.start = p.start ∧ x.span.stop = q.stop

theorem IsWithin.mono {ts us : List Token} {x : Diagnostic} (h : x.IsWithin ts) (hts : ts ⊆ us) :
    x.IsWithin us := by
  obtain ⟨p, hp, q, hq, hspan⟩ := h
  exact ⟨p, hts hp, q, hts hq, hspan⟩

end Diagnostic

namespace Grammar

/-- Whether a node is converted part by part. -/
def Nonterminal.IsTransparent : Nonterminal → Prop
  | .layer _ | .rule .expr | .rule .numeral | .rule (.chain _) => True
  | _ => False

namespace Derivation

/-- What is reported about the parse trees of a derivation. -/
def reports (line : List Char) (d : Derivation) : List Diagnostic :=
  (Tree.notesAll (d.lower line)).filterMap Note.diagnostic?

/-- A parenthesis. -/
abbrev paren (g : Glyph) (n : ℕ) : Derivation := leaf (.glyph g) ⟨.glyph g, n⟩

variable {line : List Char} {n : Nonterminal} {d : Derivation} {ds : List Derivation}
  {x : Diagnostic}

/-- The three kinds of node: a node that is converted part by part, a variable and a let form. -/
theorem Valid.node_cases (hd : (Derivation.node n ds).Valid)
    (hp : (Derivation.node n ds).symbol ≠ .rule .program) :
    n.IsTransparent ∨ (n = .rule .var ∧ ∃ t, ds = [Derivation.leaf .name t]) ∨
      n = .rule .letForm ∧ ∃ a es b, ds = paren .opening a :: (es ++ [paren .closing b]) := by
  rcases n with (_ | _ | _ | _ | _ | _) | _
  · exact absurd rfl hp
  · exact .inl trivial
  · obtain ⟨w, k, -, h⟩ := of_var_iff.1 ⟨rfl, hd⟩
    exact .inr (.inl ⟨rfl, _, (Derivation.node.inj h).2⟩)
  · exact .inl trivial
  · exact .inl trivial
  · obtain ⟨a, b, c, bs, m, e, k, -, -, -, h⟩ := of_letForm_iff.1 ⟨rfl, hd⟩
    refine .inr (.inr ⟨rfl, a, Derivation.leaf .reserved ⟨.word Word.reserved, b⟩ :: paren .opening c ::
      (bs ++ [paren .closing m, e]), k, ?_⟩)
    rw [(Derivation.node.inj h).2]
    simp [letHead, letTail]
  · exact .inl trivial

theorem reports_all (line : List Char) (ds : List Derivation) :
    (Tree.notesAll (lowerAll line ds)).filterMap Note.diagnostic? = ds.flatMap (reports line) := by
  induction ds with
  | nil => rfl
  | cons d ds ih =>
    rw [lowerAll, List.flatMap_cons, ← ih, reports, Tree.notesAll_eq, Tree.notesAll_eq,
      Tree.notesAll_eq, List.flatMap_append, List.filterMap_append]

theorem reports_of_isTransparent (hn : n.IsTransparent) (line : List Char)
    (ds : List Derivation) : reports line (node n ds) = ds.flatMap (reports line) := by
  rw [← reports_all]
  rcases n with (_ | _ | _ | _ | _ | _) | _
  · cases hn
  · simp [reports, lower, Tree.notesAll, Tree.notes, Note.diagnostic?, List.filterMap_cons]
  · cases hn
  · simp [reports, lower, Tree.notesAll, Tree.notes, Note.diagnostic?, List.filterMap_cons]
  · simp [reports, lower, Tree.notesAll, Tree.notes, Note.diagnostic?, List.filterMap_cons]
  · cases hn
  · rfl

theorem reports_letForm (line : List Char) (a : ℕ) (es : List Derivation) (b : ℕ) :
    reports line (node (.rule .letForm) (paren .opening a :: (es ++ [paren .closing b]))) =
      [.unhandledRule .letForm ⟨a, b + 1⟩] := by
  have hlow : lowerAll line (paren .opening a :: (es ++ [paren .closing b])) =
      Token.leaf ⟨.glyph .opening, a⟩ :: (lowerAll line es ++ [Token.leaf ⟨.glyph .closing, b⟩]) := by
    simp [lowerAll, lower]
  have hext : ∀ k ts, extent line .letForm k ts = Tree.extent ts := fun _ _ => rfl
  rw [reports, lower, hlow, hext, Tree.extent_parens]
  rfl

theorem reports_paren (line : List Char) (g : Glyph) (k : ℕ) : reports line (paren g k) = [] := by
  simp [reports, lower, Token.leaf, Tree.notesAll, Tree.notes, Tree.isGlyph_glyph]

/-- What is reported about a token is about all of it. -/
theorem span_of_mem_reports_leaf {k : Terminal} {t : Token} (h : x ∈ reports line (leaf k t)) :
    x.span = t.span := by
  rw [reports, lower, Tree.notesAll, Tree.notesAll, List.append_nil] at h
  split at h
  · obtain rfl : x = _ := List.mem_singleton.1 h
    rfl
  · rw [Token.leaf, Tree.notes] at h
    split at h
    · cases h
    · obtain rfl : x = _ := List.mem_singleton.1 h
      rfl

/-- The parts of a node that is no program are none either. -/
theorem Valid.symbol_part_ne (hd : (Derivation.node n ds).Valid) :
    ∀ d ∈ ds, d.symbol ≠ .rule .program := by
  cases hd with
  | node hw hv => exact fun d hd h => (word_of_body hw).2 (h ▸ List.mem_map_of_mem hd)

/-- **What is reported about a derivation is about some of its tokens.** -/
theorem Valid.isWithin_reports (hd : d.Valid) (hp : d.symbol ≠ .rule .program) :
    ∀ x ∈ reports line d, x.IsWithin d.yield := by
  induction hd with
  | @leaf k t _ =>
    intro x hx
    have hspan := span_of_mem_reports_leaf hx
    exact ⟨t, by simp [yield], t, by simp [yield], by rw [hspan]; rfl, by rw [hspan]; rfl⟩
  | @node n ds hw hv ih =>
    have hnode : (Derivation.node n ds).Valid := .node hw hv
    rcases hnode.node_cases hp with
      hn | ⟨rfl, t, rfl⟩ | ⟨rfl, a, es, b, rfl⟩
    · intro x hx
      rw [reports_of_isTransparent hn, List.mem_flatMap] at hx
      obtain ⟨d, hd, hx⟩ := hx
      exact (ih d hd (hnode.symbol_part_ne d hd) x hx).mono
        fun t ht => mem_yieldAll.2 ⟨d, hd, ht⟩
    · intro x hx
      cases hx
    · intro x hx
      rw [reports_letForm, List.mem_singleton] at hx
      subst hx
      exact ⟨⟨.glyph .opening, a⟩, by simp [yield, yieldAll], ⟨.glyph .closing, b⟩,
        by simp [yield, yieldAll], rfl, rfl⟩

/-- **Where tokens start elsewhere, so does what is reported about them.** -/
theorem Valid.reports_move (hd : d.Valid) (hp : d.symbol ≠ .rule .program) {g h : ℕ → ℕ}
    (hstop : ∀ t ∈ d.yield, (t.move g).stop = h t.stop) (line' : List Char) :
    reports line' (d.move g) =
      (reports line d).map (Diagnostic.mapSpan fun sp => ⟨g sp.start, h sp.stop⟩) := by
  induction hd with
  | @leaf k t _ =>
    have hspan : (t.move g).span = ⟨g t.start, h t.stop⟩ := by
      rw [Token.span, hstop t (by simp [yield])]
      rfl
    have htext : (t.move g).text = t.text := rfl
    rw [Derivation.move, reports, reports, lower, lower, htext, hspan, Token.leaf, Token.leaf, htext,
      hspan]
    split
    · rfl
    · simp only [Tree.notesAll, Tree.notes]
      split <;> rfl
  | @node n ds hw hv ih =>
    have hnode : (Derivation.node n ds).Valid := .node hw hv
    rcases hnode.node_cases hp with
      hn | ⟨rfl, t, rfl⟩ | ⟨rfl, a, es, b, rfl⟩
    · rw [Derivation.move, reports_of_isTransparent hn, reports_of_isTransparent hn, moveAll_eq,
        List.flatMap_map, List.map_flatMap]
      refine List.flatMap_congr fun d hd => ?_
      exact ih d hd (hnode.symbol_part_ne d hd) fun t ht => hstop t (mem_yieldAll.2 ⟨d, hd, ht⟩)
    · rfl
    · have hb : g b + 1 = h (b + 1) := hstop ⟨.glyph .closing, b⟩ (by simp [yield, yieldAll])
      have hmove : (Derivation.node (.rule .letForm) (paren .opening a :: (es ++ [paren .closing b]))).move g =
          Derivation.node (.rule .letForm)
            (paren .opening (g a) :: (moveAll g es ++ [paren .closing (g b)])) := by
        simp [Derivation.move, moveAll_eq, Token.move]
      rw [hmove, reports_letForm, reports_letForm, hb]
      rfl

/-! ## One part of a derivation -/

theorem exists_of_append_cons_eq {α : Type} {a b x : α} {as bs cs : List α}
    (h : as ++ x :: bs = a :: (cs ++ [b])) (ha : x ≠ a) (hb : x ≠ b) :
    ∃ as' bs', as = a :: as' ∧ bs = bs' ++ [b] := by
  cases as with
  | nil => exact absurd (List.cons.inj h).1 ha
  | cons c as =>
    rw [List.cons_append, List.cons.injEq] at h
    obtain ⟨rfl, h⟩ := h
    have hlast := congrArg List.getLast? h
    rw [List.getLast?_append_cons, List.getLast?_concat] at hlast
    rcases List.eq_nil_or_concat bs with rfl | ⟨bs, b', rfl⟩
    · exact absurd (Option.some.inj hlast) hb
    · rw [List.concat_eq_append, ← List.cons_append, List.getLast?_concat] at hlast
      exact ⟨as, bs, rfl, by rw [List.concat_eq_append, Option.some.inj hlast]⟩

namespace Context

variable {c : Context}

theorem symbol_fill_ne (hd : ∀ k, d.symbol ≠ .terminal k) :
    ∀ k, (c.fill d).symbol ≠ .terminal k := by
  cases c with
  | hole => exact hd
  | node => nofun

/-- **What is reported about a derivation** is about one part of it, about the tokens on one
side of this part, or about a let form around it. -/
theorem mem_reports_fill (hv : (c.fill d).Valid) (hp : (c.fill d).symbol ≠ .rule .program)
    (hd : ∀ k, d.symbol ≠ .terminal k) (hx : x ∈ reports line (c.fill d)) :
    x.IsWithin c.before ∨ x ∈ reports line d ∨ x.IsWithin c.after ∨
      ∃ p ∈ c.before, ∃ q ∈ c.after, x = .unhandledRule .letForm ⟨p.start, q.stop⟩ := by
  induction c with
  | hole => exact .inr (.inl hx)
  | node n es c fs ih =>
    have hparts := hv.symbol_part_ne
    have hvs := hv
    cases hvs with
    | node _ hvs =>
    have hbefore : c.before ⊆ yieldAll es ++ c.before := List.subset_append_right _ _
    have hafter : c.after ⊆ c.after ++ yieldAll fs := List.subset_append_left _ _
    have hwithin : ∀ e ∈ es ++ c.fill d :: fs, x ∈ reports line e → x.IsWithin e.yield :=
      fun e he hx => (hvs e he).isWithin_reports (hparts e he) x hx
    rcases hv.node_cases hp with
      hn | ⟨rfl, t, heq⟩ | ⟨rfl, a, ds, b, heq⟩
    · rw [fill, reports_of_isTransparent hn, List.mem_flatMap] at hx
      obtain ⟨e, he, hx⟩ := hx
      have hlies := hwithin e he hx
      rcases List.mem_append.1 he with he | he
      · refine .inl (hlies.mono fun t ht => List.mem_append_left _ (mem_yieldAll.2 ⟨e, he, ht⟩))
      rcases List.mem_cons.1 he with rfl | he
      · rcases ih (hvs _ (by simp)) (hparts _ (by simp)) hx with
          h | h | h | ⟨p, hp, q, hq, h⟩
        · exact .inl (h.mono hbefore)
        · exact .inr (.inl h)
        · exact .inr (.inr (.inl (h.mono hafter)))
        · exact .inr (.inr (.inr ⟨p, hbefore hp, q, hafter hq, h⟩))
      · refine .inr (.inr (.inl (hlies.mono fun t ht => ?_)))
        exact List.mem_append_right _ (mem_yieldAll.2 ⟨e, he, ht⟩)
    · obtain ⟨-, h, -⟩ := singleton_eq_append_cons heq.symm
      exact absurd (by rw [h]; rfl) (symbol_fill_ne (c := c) hd .name)
    · -- the parentheses of the let form are on either side of the part
      have hne : ∀ g k, c.fill d ≠ paren g k := fun g k h =>
        symbol_fill_ne (c := c) hd (.glyph g) (by rw [h]; rfl)
      obtain ⟨es, fs, rfl, rfl⟩ := exists_of_append_cons_eq heq (hne _ _) (hne _ _)
      rw [fill, heq, reports_letForm, List.mem_singleton] at hx
      exact .inr (.inr (.inr ⟨⟨.glyph .opening, a⟩, by simp [before, yieldAll, yield],
        ⟨.glyph .closing, b⟩, by simp [after, yieldAll, yield], hx⟩))

end Context

end Derivation

end Grammar

end ArithLine

import ArithLine.Proofs.Rendering.Derivation
import ArithLine.Proofs.Skeleton
import Mathlib.Data.Nat.Digits.Defs

/-!
# Numerals and their limits

A numeral is read as the number that its digits write, however many there are, if that number fits
in 64 bits with its sign. One more, and it is an error.

* `Numeral.Writes`: the number that some characters write, by the places of the digits.
* `Numeral.toInt?_eq_some_iff`, `Numeral.read?_eq_some_iff`: what is read of some characters.
* `Tree.ReadsToken`: what a token is converted to.
* `Source.tree_literal`, `Source.ReadsLiteral`: what a line with nothing but a numeral is read as.
* `Numeral.read_exactly`: both are just the number that is written, up to the limits.
-/

namespace ArithLine

namespace Numeral

/-! ## The number that is written -/

/-- The number that some digits write: the last counts ones, the one before it tens, and so on. -/
def placeValue (ds : List Char) : ℕ := Nat.ofDigits 10 (ds.reverse.map fun d => d.toNat - '0'.toNat)

/-- One or more ASCII digits. -/
def AreDigits (ds : List Char) : Prop := ds ≠ [] ∧ ∀ d ∈ ds, '0' ≤ d ∧ d ≤ '9'

/-- **The number that some characters write**: one or more digits, maybe after one sign. -/
inductive Writes : List Char → ℤ → Prop
  | unsigned {ds : List Char} (h : AreDigits ds) : Writes ds (placeValue ds)
  | plus {ds : List Char} (h : AreDigits ds) : Writes ('+' :: ds) (placeValue ds)
  | minus {ds : List Char} (h : AreDigits ds) : Writes ('-' :: ds) (-(placeValue ds : ℤ))

theorem areDigits_iff {ds : List Char} : AreDigits ds ↔ Word.isNumeral ds := by
  simp [AreDigits, Word.isNumeral, Char.isDigit, Char.le_def]

/-- Digits are read from the left, each making those before it worth ten times as much. -/
theorem value_eq_placeValue (ds : List Char) : value ds = placeValue ds := by
  induction ds using List.reverseRecOn with
  | nil => rfl
  | append_singleton ds d ih =>
    have hvalue : value (ds ++ [d]) = 10 * value ds + (d.toNat - '0'.toNat) := by
      rw [value, List.foldl_append]
      rfl
    rw [hvalue, ih, placeValue, placeValue, List.reverse_append, List.reverse_singleton,
      List.singleton_append, List.map_cons, Nat.ofDigits_cons]
    exact Nat.add_comm _ _

/-- **Some characters are read as the number that they write**, and as none otherwise. -/
theorem toInt?_eq_some_iff {cs : List Char} {v : ℤ} : toInt? cs = some v ↔ Writes cs v := by
  constructor
  · intro h
    unfold toInt? at h
    split at h
    · next ds =>
      obtain ⟨hds, hv⟩ := Option.ite_none_right_eq_some.1 h
      rw [← Option.some.inj hv, value_eq_placeValue]
      exact .plus (areDigits_iff.2 hds)
    · next ds =>
      obtain ⟨hds, hv⟩ := Option.ite_none_right_eq_some.1 h
      rw [← Option.some.inj hv, value_eq_placeValue]
      exact .minus (areDigits_iff.2 hds)
    · obtain ⟨hds, hv⟩ := Option.ite_none_right_eq_some.1 h
      rw [← Option.some.inj hv, value_eq_placeValue]
      exact .unsigned (areDigits_iff.2 hds)
  · intro h
    cases h with
    | unsigned h =>
      -- no digit is a sign
      have hfirst : ∀ c r, cs = c :: r → '0' ≤ c := fun c r hcs =>
        (h.2 c (hcs ▸ List.mem_cons_self)).1
      unfold toInt?
      split
      · exact absurd (hfirst _ _ rfl) (by decide)
      · exact absurd (hfirst _ _ rfl) (by decide)
      · rw [if_pos (areDigits_iff.1 h), value_eq_placeValue]
    | plus h => simp [toInt?, areDigits_iff.1 h, value_eq_placeValue]
    | minus h => simp [toInt?, areDigits_iff.1 h, value_eq_placeValue]

theorem Writes.unique {cs : List Char} {v w : ℤ} (h : Writes cs v) (h' : Writes cs w) : v = w := by
  rw [← toInt?_eq_some_iff] at h h'
  exact Option.some.inj (h.symm.trans h')

/-! ## What fits in 64 bits -/

theorem isWord_iff {v : ℤ} : isWord v ↔ -2 ^ 63 ≤ v ∧ v ≤ 2 ^ 63 - 1 := by
  rw [isWord, Bool.and_eq_true, decide_eq_true_eq, decide_eq_true_eq]
  exact Iff.rfl

theorem toWord?_eq_some_iff {v : ℤ} {n : Int64} : toWord? v = some n ↔ n.toInt = v := by
  constructor
  · intro h
    obtain ⟨hv, hn⟩ := Option.ite_none_right_eq_some.1 h
    rw [← Option.some.inj hn, toInt_ofInt_of_isWord hv]
  · rintro rfl
    exact toWord?_toInt n

/-- Some characters are read as a 64-bit word just if they write its value. -/
theorem read?_eq_some_iff {cs : List Char} {n : Int64} : read? cs = some n ↔ Writes cs n.toInt := by
  rw [read?, Option.bind_eq_some_iff]
  constructor
  · rintro ⟨v, hv, hn⟩
    rw [toWord?_eq_some_iff.1 hn]
    exact toInt?_eq_some_iff.1 hv
  · intro h
    exact ⟨n.toInt, toInt?_eq_some_iff.2 h, toWord?_toInt n⟩

/-- A number is read just if it is written and within the limits. -/
theorem exists_read?_iff {cs : List Char} {v : ℤ} : (∃ n : Int64, n.toInt = v ∧ read? cs = some n) ↔
    Writes cs v ∧ -2 ^ 63 ≤ v ∧ v ≤ 2 ^ 63 - 1 := by
  constructor
  · rintro ⟨n, rfl, hn⟩
    exact ⟨read?_eq_some_iff.1 hn, isWord_iff.1 (isWord_toInt n)⟩
  · rintro ⟨hv, hlimits⟩
    have hn := toInt_ofInt_of_isWord (isWord_iff.2 hlimits)
    exact ⟨.ofInt v, hn, read?_eq_some_iff.2 (hn.symm ▸ hv)⟩

/-- Nothing is read just if no number within the limits is written. -/
theorem read?_eq_none_iff {cs : List Char} :
    read? cs = none ↔ ∀ v, Writes cs v → ¬(-2 ^ 63 ≤ v ∧ v ≤ 2 ^ 63 - 1) := by
  constructor
  · intro hnone v hv hlimits
    obtain ⟨n, -, hn⟩ := exists_read?_iff.2 ⟨hv, hlimits⟩
    rw [hnone] at hn
    cases hn
  · intro h
    cases hn : read? cs with
    | none => rfl
    | some n =>
      have hread := exists_read?_iff.1 ⟨n, rfl, hn⟩
      exact absurd hread.2 (h _ hread.1)

end Numeral

/-! ## Tokens -/

namespace Tree

/-- **What a token is converted to**: the number that it writes, if that is within the limits, and
an error with one diagnostic otherwise. -/
structure ReadsToken (x : String) (sp : Span) : Prop where
  const_iff : ∀ v : ℤ,
    (∃ n : Int64, n.toInt = v ∧ (token x sp).convert .journal {} = (some (.const n), {})) ↔
      Numeral.Writes x.toList v ∧ -2 ^ 63 ≤ v ∧ v ≤ 2 ^ 63 - 1
  otherwise : (∀ v, Numeral.Writes x.toList v → ¬(-2 ^ 63 ≤ v ∧ v ≤ 2 ^ 63 - 1)) →
    (token x sp).convert .journal {} = (some .error, ⟨[.illegalTerminal x sp]⟩)

theorem convert_token {x : String} (hx : isGlyph x = false) (sp : Span) :
    (token x sp).convert .journal {} = match Numeral.read? x.toList with
      | some n => (some (.const n), {})
      | none => (some .error, ⟨[.illegalTerminal x sp]⟩) := by
  rw [convert, hx]
  cases Numeral.read? x.toList <;> rfl

/-- A token that is no punctuation is converted to what it writes. -/
theorem readsToken {x : String} (hx : x ∉ punctuation) (sp : Span) : ReadsToken x sp := by
  have hglyph : isGlyph x = false := by
    rw [isGlyph_eq, Bool.eq_false_iff]
    exact fun h => hx (List.contains_iff_mem.1 h)
  constructor
  · intro v
    rw [← Numeral.exists_read?_iff, convert_token hglyph]
    refine exists_congr fun n => and_congr_right fun _ => ?_
    cases hread : Numeral.read? x.toList with
    | none => simp
    | some m => simp
  · intro h
    rw [convert_token hglyph, Numeral.read?_eq_none_iff.2 h]

/-- A node for an expression or a numeral means what its only child means. -/
theorem expr?_single {r : Rule} (hr : r = .expr ∨ r = .numeral) (t : Tree) (sp : Span) :
    (node r [t] sp).expr? = t.expr? := by
  have hexprs : exprs [t] = t.expr?.toList := List.append_nil _
  rcases hr with rfl | rfl <;> rw [expr?, hexprs, Option.head?_toList]

theorem diagnostics_single {r : Rule} (hr : r = .expr ∨ r = .numeral) (t : Tree) (sp : Span) :
    (node r [t] sp).diagnostics = t.diagnostics := by
  have hnotes : notesAll [t] = t.notes := List.append_nil _
  rcases hr with rfl | rfl <;> rw [diagnostics, notes, hnotes] <;> rfl

end Tree

/-! ## Lines -/

namespace Source

open Grammar

variable {s : Source} {before x after : String}

/-- A literal between blanks is the only token of its line. -/
theorem exists_token (h : s.content = before ++ x ++ after) (hbefore : before.toList.all isBlank)
    (hafter : after.toList.all isBlank) (hx : Numeral.IsLiteral x.toList) :
    ∃ l, Terminal.numeral.Admits l ∧ l.chars = x.toList ∧
      Token.ofLine s.content = [⟨l, before.utf8ByteSize⟩] := by
  obtain ⟨l, hl, hchars, hprec⟩ := exists_lexeme_of_isLiteral hx
  refine ⟨l, hl, hchars, ?_⟩
  have hword : after.toList.head?.any isWordChar = false := by
    have hnil : ([] : List Char).head?.any isWordChar = false := rfl
    simpa using Stretch.head?_blanks hafter hnil
  have hcov : Covers 0 [⟨l, before.utf8ByteSize⟩] s.content.toList := by
    have hend : Covers (before.utf8ByteSize + byteLength l.chars) [] after.toList := by
      simpa using Covers.blanks hafter (.done _)
    have hline : s.content.toList = before.toList ++ (l.chars ++ after.toList) := by
      rw [h, hchars]
      simp
    rw [hline]
    refine Covers.blanks hbefore ?_
    rw [Nat.zero_add, ← utf8ByteSize_eq]
    exact .token (hprec _ hword) hend
  -- a minus that stands apart would be a second token
  have hsplits := hcov.splits
  rw [Token.ofLine]
  generalize Token.place 0 (pieces s.content.toList) = us at hsplits
  cases hsplits with
  | same t hrest =>
    cases hrest
    rfl

/-- The tree of a numeral with nothing around it. -/
def literalTree (x : String) (sp : Span) : Tree := .node .expr [.node .numeral [.token x sp] sp] sp

/-- A literal between blanks is read as the tree of a numeral, at its own bytes. -/
theorem tree_literal (h : s.content = before ++ x ++ after) (hbefore : before.toList.all isBlank)
    (hafter : after.toList.all isBlank) (hx : Numeral.IsLiteral x.toList) :
    s.tree = .ok (.node .program
      [literalTree x ⟨before.utf8ByteSize, (before ++ x).utf8ByteSize⟩]
      ⟨0, s.content.utf8ByteSize⟩) := by
  obtain ⟨l, hl, hchars, hline⟩ := exists_token h hbefore hafter hx
  obtain ⟨t, ht⟩ : ∃ t, t = Token.mk l before.utf8ByteSize := ⟨_, rfl⟩
  have hleaf : t.leaf = .token x ⟨before.utf8ByteSize, (before ++ x).utf8ByteSize⟩ := by
    have hstop : t.stop = (before ++ x).utf8ByteSize := by
      rw [ht, Token.stop, hchars, ← utf8ByteSize_eq, String.utf8ByteSize_append]
    rw [Token.leaf, Token.text, Token.span, hstop, ht, hchars, String.ofList_toList]
  have hoperand : t.operand = .spanning .numeral [t.leaf] := by
    rw [Token.operand, ht]
    cases l with
    | word w => simp [Word.classify_eq_numeral_iff.2 hl]
    | signed ds => rfl
    | glyph c => cases hl
  have hstep : Unfinished.start.step t = some (.ended [] {} [t.operand]) := by
    rw [ht]
    cases l with
    | word w => rfl
    | signed ds => rfl
    | glyph c => cases hl
  rw [tree_eq_ok_iff, Tree.ofLine, hline, ← ht, Unfinished.read, hstep, hoperand, hleaf]
  rfl

theorem expr?_literalTree (x : String) (sp : Span) :
    (literalTree x sp).expr? = (Tree.token x sp).expr? :=
  (Tree.expr?_single (.inl rfl) _ sp).trans (Tree.expr?_single (.inr rfl) _ sp)

theorem diagnostics_literalTree (x : String) (sp : Span) :
    (literalTree x sp).diagnostics = (Tree.token x sp).diagnostics :=
  (Tree.diagnostics_single (.inl rfl) _ sp).trans (Tree.diagnostics_single (.inr rfl) _ sp)

/-- Such a line is read as its token is converted. -/
theorem parse_literal (h : s.content = before ++ x ++ after) (hbefore : before.toList.all isBlank)
    (hafter : after.toList.all isBlank) (hx : Numeral.IsLiteral x.toList) {e : Expr} {j : Journal}
    (hconvert : (Tree.token x ⟨before.utf8ByteSize, (before ++ x).utf8ByteSize⟩).convert
      .journal {} = (some e, j)) : s.parse .journal {} = (.ok ⟨e⟩, j) := by
  have htree := tree_literal h hbefore hafter hx
  rw [Tree.convert_journal, ← expr?_literalTree, ← diagnostics_literalTree] at hconvert
  obtain ⟨he, hj⟩ := Prod.mk.inj hconvert
  rw [parse_journal, read, program_eq_of_root htree he, diagnostics_eq_of_root htree, hj]

/-- **What a literal between blanks is read as**, at its own bytes: its number, if that is within
the limits, and an error with one diagnostic otherwise. -/
structure ReadsLiteral (s : Source) (x : String) (sp : Span) : Prop where
  writes : ∃ v, Numeral.Writes x.toList v
  within : ∀ v, Numeral.Writes x.toList v → -2 ^ 63 ≤ v ∧ v ≤ 2 ^ 63 - 1 →
    ∃ n : Int64, n.toInt = v ∧ s.parse .journal {} = (.ok ⟨.const n⟩, {})
  beyond : ∀ v, Numeral.Writes x.toList v → ¬(-2 ^ 63 ≤ v ∧ v ≤ 2 ^ 63 - 1) →
    s.parse .journal {} = (.ok ⟨.error⟩, ⟨[.illegalTerminal x sp]⟩)

theorem readsLiteral (h : s.content = before ++ x ++ after) (hbefore : before.toList.all isBlank)
    (hafter : after.toList.all isBlank) (hx : Numeral.IsLiteral x.toList) :
    s.ReadsLiteral x ⟨before.utf8ByteSize, (before ++ x).utf8ByteSize⟩ := by
  have htoken : Tree.ReadsToken x ⟨before.utf8ByteSize, (before ++ x).utf8ByteSize⟩ := by
    refine Tree.readsToken (fun hmem => ?_) _
    have hglyph := Tree.isGlyph_eq_false hx
    rw [Tree.isGlyph_eq, List.contains_iff_mem.2 hmem] at hglyph
    cases hglyph
  constructor
  · exact ⟨_, Numeral.toInt?_eq_some_iff.1 (Numeral.toInt?_of_isLiteral hx)⟩
  · intro v hv hlimits
    obtain ⟨n, hn, hconvert⟩ := (htoken.const_iff v).2 ⟨hv, hlimits⟩
    exact ⟨n, hn, parse_literal h hbefore hafter hx hconvert⟩
  · intro v hv hlimits
    refine parse_literal h hbefore hafter hx (htoken.otherwise fun w hw => ?_)
    rwa [hw.unique hv]

end Source

/-- **Numerals are read exactly, up to the limits of 64 bits**, as tokens and as lines. -/
theorem Numeral.read_exactly :
    (∀ (x : String) (sp : Span), x ∉ Tree.punctuation → Tree.ReadsToken x sp) ∧
    ∀ (s : Source) (before x after : String), s.content = before ++ x ++ after →
      before.toList.all isBlank → after.toList.all isBlank → Numeral.IsLiteral x.toList →
      s.ReadsLiteral x ⟨before.utf8ByteSize, (before ++ x).utf8ByteSize⟩ :=
  ⟨fun _ sp hx => Tree.readsToken hx sp, fun _ _ _ _ h hbefore hafter hx =>
    Source.readsLiteral h hbefore hafter hx⟩

/-- The least number is read, and the greatest one plus one is not. -/
theorem Numeral.read_exactly_limits :
    (∃ n : Int64, n.toInt = -2 ^ 63 ∧
      (Tree.token "-9223372036854775808" .zero).convert .journal {} = (some (.const n), {})) ∧
    (Source.input "\t9223372036854775808 ").parse .journal {} =
      (.ok ⟨.error⟩, ⟨[.illegalTerminal "9223372036854775808" ⟨1, 20⟩]⟩) := by
  have hdigits : AreDigits "9223372036854775808".toList := areDigits_iff.2 (by decide)
  have hvalue : placeValue "9223372036854775808".toList = 2 ^ 63 := by decide +kernel
  have hminus : Writes "-9223372036854775808".toList (-2 ^ 63) := by
    have h := Writes.minus hdigits
    rw [hvalue] at h
    exact h
  have hplain : Writes "9223372036854775808".toList (2 ^ 63) := by
    have h := Writes.unsigned hdigits
    rw [hvalue] at h
    exact h
  constructor
  · have htoken := read_exactly.1 "-9223372036854775808" .zero (by decide)
    exact (htoken.const_iff _).2 ⟨hminus, by decide, by decide⟩
  · have hline := read_exactly.2 (.input "\t9223372036854775808 ") "\t" "9223372036854775808" " "
      (by decide +kernel) (by decide) (by decide) ⟨_, areDigits_iff.1 hdigits, .inl rfl⟩
    exact hline.beyond _ hplain (by decide)

end ArithLine

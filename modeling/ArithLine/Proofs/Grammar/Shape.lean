import ArithLine.Proofs.Grammar.Basic
import Mathlib.Data.List.Forall2

/-!
# What a derivation looks like

The words of each rule's expression (`mem_body_program` and so on), and from them
the derivations of each rule: a derivation of a symbol is a leaf or a node of
exactly the form that the rule allows. Everything after this module takes a
derivation apart by these laws and does not look at `Grammar.body` again.
-/

namespace ArithLine.Grammar

open RegularExpression (matches'_mul matches'_add matches'_star)

/-- A rule that keeps its node, as a part of another. -/
abbrev Symbol.rule (r : Rule) : Symbol := .nonterminal (.rule r)

/-- A rule that leaves no node, as a part of another. -/
abbrev Symbol.layer (l : Layer) : Symbol := .nonterminal (.layer l)

/-- A parenthesis or an operator, as a part of a rule. -/
abbrev Symbol.glyph (g : Glyph) : Symbol := .terminal (.glyph g)

/-! ## Words -/

/-- The symbols that stand in a regular expression. -/
def symbols {α : Type} : RegularExpression α → List α
  | .zero | .epsilon => []
  | .char a => [a]
  | .plus e f | .comp e f => symbols e ++ symbols f
  | .star e => symbols e

/-- A word of a regular expression has no other symbols. -/
theorem mem_symbols {α : Type} {e : RegularExpression α} {w : List α} (h : w ∈ e.matches') :
    ∀ a ∈ w, a ∈ symbols e := by
  induction e generalizing w with
  | zero => cases h
  | epsilon =>
    obtain rfl : w = [] := h
    simp
  | char a =>
    obtain rfl : w = [a] := h
    simp [symbols]
  | plus e f ihe ihf =>
    intro a ha
    rcases h with h | h
    · exact List.mem_append_left _ (ihe h a ha)
    · exact List.mem_append_right _ (ihf h a ha)
  | comp e f ihe ihf =>
    obtain ⟨u, hu, v, hv, rfl⟩ := Language.mem_mul.1 h
    intro a ha
    rcases List.mem_append.1 ha with ha | ha
    · exact List.mem_append_left _ (ihe hu a ha)
    · exact List.mem_append_right _ (ihf hv a ha)
  | star e ih =>
    obtain ⟨L, rfl, hL⟩ := Language.mem_kstar.1 h
    intro a ha
    obtain ⟨u, hu, ha⟩ := List.mem_flatten.1 ha
    exact ih (hL u hu) a ha

section Words

variable {w : List Symbol}

theorem mem_token {k : Terminal} : w ∈ (token k).matches' ↔ w = [.terminal k] := Iff.rfl

theorem mem_rule {r : Rule} : w ∈ (rule r).matches' ↔ w = [.rule r] := Iff.rfl

theorem mem_layer {l : Layer} : w ∈ (layer l).matches' ↔ w = [.layer l] := Iff.rfl

theorem mem_oneOrMore {e : RegularExpression Symbol} {u : List Symbol}
    (he : ∀ v, v ∈ e.matches' ↔ v = u) :
    w ∈ (oneOrMore e).matches' ↔ ∃ k, w = (List.replicate (k + 1) u).flatten := by
  simp only [oneOrMore, matches'_mul, matches'_star, he, Language.mem_mul, Language.mem_kstar]
  constructor
  · rintro ⟨_, rfl, _, ⟨L, rfl, hL⟩, rfl⟩
    refine ⟨L.length, ?_⟩
    rw [List.replicate_succ, List.flatten_cons, ← List.eq_replicate_of_mem hL]
  · rintro ⟨k, rfl⟩
    refine ⟨u, rfl, _, ⟨List.replicate k u, rfl, fun y hy => List.eq_of_mem_replicate hy⟩, ?_⟩
    rw [List.replicate_succ, List.flatten_cons]

/-- The operators and later operands of a chain. -/
def linkWord (o : Op) (k : ℕ) : List Symbol :=
  (List.replicate k [.glyph (.op o), .layer (operand o)]).flatten

theorem linkWord_succ (o : Op) (k : ℕ) :
    linkWord o (k + 1) = .glyph (.op o) :: .layer (operand o) :: linkWord o k := rfl

theorem mem_body_chain {o : Op} : w ∈ (body (.rule (.chain o))).matches' ↔
    ∃ k, w = .layer (operand o) :: linkWord o (k + 1) := by
  have h : ∀ v, v ∈ (token (.glyph (.op o)) * layer (operand o)).matches' ↔
      v = [.glyph (.op o), .layer (operand o)] := by
    intro v
    simp only [matches'_mul, Language.mem_mul, mem_token, mem_layer, exists_eq_left,
      List.singleton_append]
    exact eq_comm
  simp only [body, matches'_mul, Language.mem_mul, mem_layer, mem_oneOrMore h, exists_eq_left,
    List.singleton_append]
  constructor
  · rintro ⟨_, ⟨k, rfl⟩, rfl⟩
    exact ⟨k, rfl⟩
  · rintro ⟨k, rfl⟩
    exact ⟨_, ⟨k, rfl⟩, rfl⟩

/-- The parts of a let form with so many bindings. -/
def letWord (k : ℕ) : List Symbol :=
  [.glyph .opening, .terminal .reserved, .glyph .opening] ++
    (List.replicate k (.layer .binding) ++ [.glyph .closing, .rule .expr, .glyph .closing])

theorem mem_body_letForm : w ∈ (body (.rule .letForm)).matches' ↔ ∃ k, w = letWord (k + 1) := by
  have h : ∀ v, v ∈ (layer .binding).matches' ↔ v = [.layer .binding] := fun v => mem_layer
  simp [letWord, body, matches'_mul, Language.mem_mul, mem_oneOrMore h, mem_token, mem_rule,
    -RegularExpression.matches', @eq_comm _ _ w]

theorem mem_body_sum : w ∈ (body (.layer .sum)).matches' ↔
    (∃ o, o.isTight = false ∧ w = [.rule (.chain o)]) ∨ w = [.layer .product] := by
  constructor
  · rintro ((rfl | rfl) | rfl)
    · exact .inl ⟨.add, rfl, rfl⟩
    · exact .inl ⟨.sub, rfl, rfl⟩
    · exact .inr rfl
  · rintro (⟨_ | _ | _ | _, ho, rfl⟩ | rfl)
    · exact .inl (.inl rfl)
    · exact .inl (.inr rfl)
    · cases ho
    · cases ho
    · exact .inr rfl

theorem mem_body_product : w ∈ (body (.layer .product)).matches' ↔
    (∃ o, o.isTight = true ∧ w = [.rule (.chain o)]) ∨ w = [.layer .atom] := by
  constructor
  · rintro ((rfl | rfl) | rfl)
    · exact .inl ⟨.mul, rfl, rfl⟩
    · exact .inl ⟨.div, rfl, rfl⟩
    · exact .inr rfl
  · rintro (⟨_ | _ | _ | _, ho, rfl⟩ | rfl)
    · cases ho
    · cases ho
    · exact .inl (.inl rfl)
    · exact .inl (.inr rfl)
    · exact .inr rfl

theorem mem_body_atom : w ∈ (body (.layer .atom)).matches' ↔
    w = [.rule .letForm] ∨ w = [.rule .numeral] ∨ w = [.rule .var] ∨
      w = [.glyph .opening, .rule .expr, .glyph .closing] ∨ w = [.terminal .unknown] := by
  simp [body, matches'_mul, matches'_add, Language.mem_mul, Language.mem_add, mem_token,
    mem_rule, -RegularExpression.matches', @eq_comm _ _ w, or_assoc]

theorem mem_body_binding : w ∈ (body (.layer .binding)).matches' ↔
    w = [.glyph .opening, .terminal .name, .rule .expr, .glyph .closing] := by
  simp [body, matches'_mul, Language.mem_mul, mem_token, mem_rule,
    -RegularExpression.matches', @eq_comm _ _ w]

/-- No rule has a program among its parts, and every rule has parts. -/
theorem word_of_body {n : Nonterminal} (h : w ∈ (body n).matches') :
    w ≠ [] ∧ .rule .program ∉ w := by
  constructor
  · rintro rfl
    rw [← RegularExpression.rmatch_iff_matches'] at h
    revert h
    rcases n with (_ | _ | _ | _ | (_ | _ | _ | _) | _) | (_ | _ | _ | _) <;> decide
  · intro hw
    have hmem := mem_symbols h _ hw
    revert hmem
    rcases n with (_ | _ | _ | _ | (_ | _ | _ | _) | _) | (_ | _ | _ | _) <;> decide

end Words

/-! ## Derivations -/

namespace Derivation

@[simp] theorem yieldAll_append (ds es : List Derivation) :
    yieldAll (ds ++ es) = yieldAll ds ++ yieldAll es := by
  induction ds with
  | nil => rfl
  | cons d ds ih => rw [List.cons_append, yieldAll, yieldAll, ih, List.append_assoc]

@[simp] theorem lowerAll_append (line : List Char) (ds es : List Derivation) :
    lowerAll line (ds ++ es) = lowerAll line ds ++ lowerAll line es := by
  induction ds with
  | nil => rfl
  | cons d ds ih => rw [List.cons_append, lowerAll, lowerAll, ih, List.append_assoc]

@[simp] theorem yieldAll_singleton (d : Derivation) : yieldAll [d] = d.yield := by
  rw [yieldAll, yieldAll, List.append_nil]

@[simp] theorem lowerAll_singleton (line : List Char) (d : Derivation) :
    lowerAll line [d] = d.lower line := by
  rw [lowerAll, lowerAll, List.append_nil]

/-- A layer gives way to its parts. -/
theorem lowerAll_layer (line : List Char) (l : Layer) (ds : List Derivation) :
    lowerAll line [node (.layer l) ds] = lowerAll line ds := by
  rw [lowerAll_singleton, lower]

/-- A valid derivation of a symbol. -/
structure Of (s : Symbol) (d : Derivation) : Prop where
  symbol : d.symbol = s
  valid : d.Valid

variable {d : Derivation} {ds : List Derivation}

theorem valid_parts_iff {w : List Symbol} :
    List.Forall₂ Of w ds ↔ ds.map symbol = w ∧ ∀ d ∈ ds, d.Valid := by
  induction ds generalizing w with
  | nil => simp [eq_comm]
  | cons d ds ih =>
    rw [List.forall₂_cons_right_iff, List.map_cons, List.forall_mem_cons]
    constructor
    · rintro ⟨s, w, hd, hw, rfl⟩
      obtain ⟨rfl, hv⟩ := ih.1 hw
      exact ⟨by rw [hd.symbol], hd.valid, hv⟩
    · rintro ⟨rfl, hd, hv⟩
      exact ⟨_, _, ⟨rfl, hd⟩, ih.2 ⟨rfl, hv⟩, rfl⟩

theorem of_nonterminal_iff {n : Nonterminal} : Of (.nonterminal n) d ↔
    ∃ w ∈ (body n).matches', ∃ ds, List.Forall₂ Of w ds ∧ d = node n ds := by
  constructor
  · rintro ⟨hs, hv⟩
    cases hv with
    | leaf => cases hs
    | node word parts => cases hs; exact ⟨_, word, _, valid_parts_iff.2 ⟨rfl, parts⟩, rfl⟩
  · rintro ⟨w, hw, ds, hds, rfl⟩
    obtain ⟨rfl, hv⟩ := valid_parts_iff.1 hds
    exact ⟨rfl, .node hw hv⟩

theorem of_terminal_iff {k : Terminal} : Of (.terminal k) d ↔
    ∃ t : Token, k.Admits t.lexeme ∧ d = leaf k t := by
  constructor
  · rintro ⟨hs, hv⟩
    cases hv with
    | leaf admits => cases hs; exact ⟨_, admits, rfl⟩
    | node => cases hs
  · rintro ⟨t, ht, rfl⟩
    exact ⟨rfl, .leaf ht⟩

theorem of_glyph_iff {g : Glyph} : Of (.glyph g) d ↔ ∃ n, d = leaf (.glyph g) ⟨.glyph g, n⟩ := by
  rw [of_terminal_iff]
  constructor
  · rintro ⟨⟨g' | _ | _, n⟩, ht, rfl⟩
    · obtain rfl : g = g' := ht
      exact ⟨n, rfl⟩
    · cases ht
    · cases ht
  · rintro ⟨n, rfl⟩
    exact ⟨⟨.glyph g, n⟩, show g = g from rfl, rfl⟩

/-- A token of a kind that only words are of. -/
theorem of_word_iff {k : Terminal} (hk : ∀ l, k.Admits l → ∃ w, l = .word w) :
    Of (.terminal k) d ↔ ∃ w n, k.Admits (.word w) ∧ d = leaf k ⟨.word w, n⟩ := by
  rw [of_terminal_iff]
  constructor
  · rintro ⟨⟨l, n⟩, ht, rfl⟩
    obtain ⟨w, rfl⟩ := hk l ht
    exact ⟨w, n, ht, rfl⟩
  · rintro ⟨w, n, hw, rfl⟩
    exact ⟨_, hw, rfl⟩

theorem of_name_iff : Of (.terminal .name) d ↔
    ∃ w n, Word.isName w ∧ d = leaf .name ⟨.word w, n⟩ :=
  of_word_iff fun l h => by cases l <;> first | exact ⟨_, rfl⟩ | cases h

theorem of_unknown_iff : Of (.terminal .unknown) d ↔
    ∃ w n, (¬ Word.isNumeral w ∧ ¬ Word.isName w) ∧ d = leaf .unknown ⟨.word w, n⟩ :=
  of_word_iff fun l h => by cases l <;> first | exact ⟨_, rfl⟩ | cases h

theorem of_reserved_iff : Of (.terminal .reserved) d ↔
    ∃ n, d = leaf .reserved ⟨.word Word.reserved, n⟩ := by
  rw [of_word_iff fun l h => by cases l <;> first | exact ⟨_, rfl⟩ | cases h]
  constructor
  · rintro ⟨w, n, rfl, rfl⟩; exact ⟨n, rfl⟩
  · rintro ⟨n, rfl⟩; exact ⟨_, n, rfl, rfl⟩

/-- The parts of an atom. -/
inductive IsAtom : List Derivation → Prop
  | letForm {e : Derivation} (h : Of (.rule .letForm) e) : IsAtom [e]
  | numeral {e : Derivation} (h : Of (.rule .numeral) e) : IsAtom [e]
  | var {e : Derivation} (h : Of (.rule .var) e) : IsAtom [e]
  | unknown {e : Derivation} (h : Of (.terminal .unknown) e) : IsAtom [e]
  | group {e : Derivation} (m n : ℕ) (h : Of (.rule .expr) e) :
    IsAtom [leaf (.glyph .opening) ⟨.glyph .opening, m⟩, e,
      leaf (.glyph .closing) ⟨.glyph .closing, n⟩]

theorem one_part_iff {s : Symbol} : List.Forall₂ Of [s] ds ↔ ∃ e, Of s e ∧ ds = [e] := by
  simp [List.forall₂_cons_left_iff]

/-- The parts of an expression with a glyph on either side. -/
theorem between_parts_iff {g h : Glyph} :
    List.Forall₂ Of [.glyph g, .rule .expr, .glyph h] ds ↔ ∃ m e n, Of (.rule .expr) e ∧
      ds = [leaf (.glyph g) ⟨.glyph g, m⟩, e, leaf (.glyph h) ⟨.glyph h, n⟩] := by
  simp only [List.forall₂_cons_left_iff, List.forall₂_nil_left_iff, of_glyph_iff]
  constructor
  · rintro ⟨_, _, ⟨m, rfl⟩, ⟨e, _, he, ⟨_, _, ⟨n, rfl⟩, rfl, rfl⟩, rfl⟩, rfl⟩
    exact ⟨m, e, n, he, rfl⟩
  · rintro ⟨m, e, n, he, rfl⟩
    exact ⟨_, _, ⟨m, rfl⟩, ⟨e, _, he, ⟨_, _, ⟨n, rfl⟩, rfl, rfl⟩, rfl⟩, rfl⟩

theorem of_program_iff : Of (.rule .program) d ↔
    ∃ e, Of (.rule .expr) e ∧ d = node (.rule .program) [e] := by
  simp [of_nonterminal_iff (n := .rule .program), body, mem_rule, one_part_iff,
    -RegularExpression.matches']

theorem of_expr_iff : Of (.rule .expr) d ↔
    ∃ e, Of (.layer .sum) e ∧ d = node (.rule .expr) [e] := by
  simp [of_nonterminal_iff (n := .rule .expr), body, mem_layer, one_part_iff,
    -RegularExpression.matches']

theorem of_var_iff : Of (.rule .var) d ↔
    ∃ w n, Word.isName w ∧ d = node (.rule .var) [leaf .name ⟨.word w, n⟩] := by
  simp [of_nonterminal_iff (n := .rule .var), body, mem_token, one_part_iff, of_name_iff,
    -RegularExpression.matches']

theorem of_numeral_iff : Of (.rule .numeral) d ↔ ∃ t : Token,
    Terminal.numeral.Admits t.lexeme ∧ d = node (.rule .numeral) [leaf .numeral t] := by
  simp [of_nonterminal_iff (n := .rule .numeral), body, mem_token, one_part_iff,
    of_terminal_iff, -RegularExpression.matches']

theorem of_chain_iff {o : Op} : Of (.rule (.chain o)) d ↔
    ∃ k e es, Of (.layer (operand o)) e ∧ List.Forall₂ Of (linkWord o (k + 1)) es ∧
      d = node (.rule (.chain o)) (e :: es) := by
  simp only [of_nonterminal_iff (n := .rule (.chain o)), mem_body_chain]
  constructor
  · rintro ⟨_, ⟨k, rfl⟩, ds, hds, rfl⟩
    obtain ⟨e, es, he, hes, rfl⟩ := List.forall₂_cons_left_iff.1 hds
    exact ⟨k, e, es, he, hes, rfl⟩
  · rintro ⟨k, e, es, he, hes, rfl⟩
    exact ⟨_, ⟨k, rfl⟩, _, .cons he hes, rfl⟩

theorem links_succ_iff {o : Op} {k : ℕ} : List.Forall₂ Of (linkWord o (k + 1)) ds ↔
    ∃ n e es, Of (.layer (operand o)) e ∧ List.Forall₂ Of (linkWord o k) es ∧
      ds = leaf (.glyph (.op o)) ⟨.glyph (.op o), n⟩ :: e :: es := by
  rw [linkWord_succ, List.forall₂_cons_left_iff]
  constructor
  · rintro ⟨t, _, ht, hr, rfl⟩
    obtain ⟨n, rfl⟩ := of_glyph_iff.1 ht
    obtain ⟨e, es, he, hes, rfl⟩ := List.forall₂_cons_left_iff.1 hr
    exact ⟨n, e, es, he, hes, rfl⟩
  · rintro ⟨n, e, es, he, hes, rfl⟩
    exact ⟨_, _, of_glyph_iff.2 ⟨n, rfl⟩, .cons he hes, rfl⟩

theorem length_links {o : Op} {k : ℕ} {es : List Derivation}
    (h : List.Forall₂ Of (linkWord o k) es) : es.length = 2 * k := by
  rw [← h.length_eq, linkWord]; simp [Nat.mul_comm]

/-- A layer that is a chain of some operators or the next layer. -/
theorem of_choice_iff {l l' : Layer} {tight : Bool} (h : ∀ w, w ∈ (body (.layer l)).matches' ↔
      (∃ o, o.isTight = tight ∧ w = [.rule (.chain o)]) ∨ w = [.layer l']) :
    Of (.layer l) d ↔
      ∃ e, ((∃ o, o.isTight = tight ∧ Of (.rule (.chain o)) e) ∨ Of (.layer l') e) ∧
        d = node (.layer l) [e] := by
  simp only [of_nonterminal_iff (n := .layer l), h]
  constructor
  · rintro ⟨_, ⟨o, ho, rfl⟩ | rfl, ds, hds, rfl⟩
    · obtain ⟨e, he, rfl⟩ := one_part_iff.1 hds
      exact ⟨e, .inl ⟨o, ho, he⟩, rfl⟩
    · obtain ⟨e, he, rfl⟩ := one_part_iff.1 hds
      exact ⟨e, .inr he, rfl⟩
  · rintro ⟨e, ⟨o, ho, he⟩ | he, rfl⟩
    · exact ⟨_, .inl ⟨o, ho, rfl⟩, _, one_part_iff.2 ⟨e, he, rfl⟩, rfl⟩
    · exact ⟨_, .inr rfl, _, one_part_iff.2 ⟨e, he, rfl⟩, rfl⟩

theorem of_sum_iff : Of (.layer .sum) d ↔
    ∃ e, ((∃ o, o.isTight = false ∧ Of (.rule (.chain o)) e) ∨ Of (.layer .product) e) ∧
      d = node (.layer .sum) [e] :=
  of_choice_iff fun _ => mem_body_sum

theorem of_product_iff : Of (.layer .product) d ↔
    ∃ e, ((∃ o, o.isTight = true ∧ Of (.rule (.chain o)) e) ∨ Of (.layer .atom) e) ∧
      d = node (.layer .product) [e] :=
  of_choice_iff fun _ => mem_body_product

theorem of_atom_iff : Of (.layer .atom) d ↔ ∃ ds, IsAtom ds ∧ d = node (.layer .atom) ds := by
  simp only [of_nonterminal_iff (n := .layer .atom), mem_body_atom]
  constructor
  · rintro ⟨_, rfl | rfl | rfl | rfl | rfl, ds, hds, rfl⟩
    · obtain ⟨e, he, rfl⟩ := one_part_iff.1 hds; exact ⟨_, .letForm he, rfl⟩
    · obtain ⟨e, he, rfl⟩ := one_part_iff.1 hds; exact ⟨_, .numeral he, rfl⟩
    · obtain ⟨e, he, rfl⟩ := one_part_iff.1 hds; exact ⟨_, .var he, rfl⟩
    · obtain ⟨m, e, n, he, rfl⟩ := between_parts_iff.1 hds; exact ⟨_, .group m n he, rfl⟩
    · obtain ⟨e, he, rfl⟩ := one_part_iff.1 hds; exact ⟨_, .unknown he, rfl⟩
  · rintro ⟨ds, h, rfl⟩
    cases h with
    | letForm h => exact ⟨_, .inl rfl, _, one_part_iff.2 ⟨_, h, rfl⟩, rfl⟩
    | numeral h => exact ⟨_, .inr (.inl rfl), _, one_part_iff.2 ⟨_, h, rfl⟩, rfl⟩
    | var h => exact ⟨_, .inr (.inr (.inl rfl)), _, one_part_iff.2 ⟨_, h, rfl⟩, rfl⟩
    | unknown h => exact ⟨_, .inr (.inr (.inr (.inr rfl))), _, one_part_iff.2 ⟨_, h, rfl⟩, rfl⟩
    | group m n h =>
      exact ⟨_, .inr (.inr (.inr (.inl rfl))), _, between_parts_iff.2 ⟨m, _, n, h, rfl⟩, rfl⟩

theorem of_binding_iff : Of (.layer .binding) d ↔
    ∃ m w n e k, Word.isName w ∧ Of (.rule .expr) e ∧
      d = node (.layer .binding) [leaf (.glyph .opening) ⟨.glyph .opening, m⟩,
        leaf .name ⟨.word w, n⟩, e, leaf (.glyph .closing) ⟨.glyph .closing, k⟩] := by
  simp only [of_nonterminal_iff (n := .layer .binding), mem_body_binding, exists_eq_left,
    List.forall₂_cons_left_iff, List.forall₂_nil_left_iff, of_glyph_iff, of_name_iff]
  constructor
  · rintro ⟨_, ⟨_, _, ⟨m, rfl⟩, ⟨_, _, ⟨w, n, hw, rfl⟩, ⟨e, _, he, ⟨_, _, ⟨k, rfl⟩, rfl, rfl⟩, rfl⟩,
      rfl⟩, rfl⟩, rfl⟩
    exact ⟨m, w, n, e, k, hw, he, rfl⟩
  · rintro ⟨m, w, n, e, k, hw, he, rfl⟩
    exact ⟨_, ⟨_, _, ⟨m, rfl⟩, ⟨_, _, ⟨w, n, hw, rfl⟩, ⟨e, _, he, ⟨_, _, ⟨k, rfl⟩, rfl, rfl⟩, rfl⟩,
      rfl⟩, rfl⟩, rfl⟩

theorem parts_append_iff {u w : List Symbol} : List.Forall₂ Of (u ++ w) ds ↔
    ∃ es fs, List.Forall₂ Of u es ∧ List.Forall₂ Of w fs ∧ ds = es ++ fs := by
  simp only [valid_parts_iff]
  constructor
  · rintro ⟨hw, hv⟩
    obtain ⟨es, fs, rfl, rfl, rfl⟩ := List.map_eq_append_iff.1 hw
    rw [List.forall_mem_append] at hv
    exact ⟨es, fs, ⟨rfl, hv.1⟩, ⟨rfl, hv.2⟩, rfl⟩
  · rintro ⟨es, fs, ⟨rfl, he⟩, ⟨rfl, hf⟩, rfl⟩
    exact ⟨List.map_append, List.forall_mem_append.2 ⟨he, hf⟩⟩

theorem parts_replicate_iff {s : Symbol} {k : ℕ} :
    List.Forall₂ Of (List.replicate k s) ds ↔ ds.length = k ∧ ∀ d ∈ ds, Of s d := by
  induction ds generalizing k with
  | nil => cases k <;> simp [List.replicate_succ]
  | cons d ds ih =>
    cases k with
    | zero => simp
    | succ k => simp [List.replicate_succ, ih]; tauto

/-- What a let form has before its bindings. -/
def letHead (a b c : ℕ) : List Derivation :=
  [leaf (.glyph .opening) ⟨.glyph .opening, a⟩, leaf .reserved ⟨.word Word.reserved, b⟩,
    leaf (.glyph .opening) ⟨.glyph .opening, c⟩]

/-- What a let form has after its bindings. -/
def letTail (m : ℕ) (e : Derivation) (n : ℕ) : List Derivation :=
  [leaf (.glyph .closing) ⟨.glyph .closing, m⟩, e, leaf (.glyph .closing) ⟨.glyph .closing, n⟩]

theorem letHead_parts_iff : List.Forall₂ Of
    [.glyph .opening, .terminal .reserved, .glyph .opening] ds ↔ ∃ a b c, ds = letHead a b c := by
  simp only [List.forall₂_cons_left_iff, List.forall₂_nil_left_iff, of_glyph_iff, of_reserved_iff]
  constructor
  · rintro ⟨_, _, ⟨a, rfl⟩, ⟨_, _, ⟨b, rfl⟩, ⟨_, _, ⟨c, rfl⟩, rfl, rfl⟩, rfl⟩, rfl⟩
    exact ⟨a, b, c, rfl⟩
  · rintro ⟨a, b, c, rfl⟩
    exact ⟨_, _, ⟨a, rfl⟩, ⟨_, _, ⟨b, rfl⟩, ⟨_, _, ⟨c, rfl⟩, rfl, rfl⟩, rfl⟩, rfl⟩

theorem letTail_parts_iff : List.Forall₂ Of [.glyph .closing, .rule .expr, .glyph .closing] ds ↔
    ∃ m e n, Of (.rule .expr) e ∧ ds = letTail m e n := between_parts_iff

theorem letWord_parts_iff {k : ℕ} : List.Forall₂ Of (letWord k) ds ↔
    ∃ a b c bs m e n, bs.length = k ∧ (∀ b ∈ bs, Of (.layer .binding) b) ∧ Of (.rule .expr) e ∧
      ds = letHead a b c ++ (bs ++ letTail m e n) := by
  rw [letWord, parts_append_iff]
  constructor
  · rintro ⟨_, _, hhead, hrest, rfl⟩
    obtain ⟨bs, _, hbindings, htail, rfl⟩ := parts_append_iff.1 hrest
    obtain ⟨a, b, c, rfl⟩ := letHead_parts_iff.1 hhead
    obtain ⟨m, e, n, he, rfl⟩ := letTail_parts_iff.1 htail
    obtain ⟨hk, hbs⟩ := parts_replicate_iff.1 hbindings
    exact ⟨a, b, c, bs, m, e, n, hk, hbs, he, rfl⟩
  · rintro ⟨a, b, c, bs, m, e, n, hk, hbs, he, rfl⟩
    have hbindings := parts_replicate_iff.2 ⟨hk, hbs⟩
    have htail := letTail_parts_iff.2 ⟨m, e, n, he, rfl⟩
    exact ⟨_, _, letHead_parts_iff.2 ⟨a, b, c, rfl⟩,
      parts_append_iff.2 ⟨_, _, hbindings, htail, rfl⟩, rfl⟩

theorem of_letForm_iff : Of (.rule .letForm) d ↔
    ∃ a b c bs m e n, bs ≠ [] ∧ (∀ b ∈ bs, Of (.layer .binding) b) ∧ Of (.rule .expr) e ∧
      d = node (.rule .letForm) (letHead a b c ++ (bs ++ letTail m e n)) := by
  simp only [of_nonterminal_iff (n := .rule .letForm), mem_body_letForm]
  constructor
  · rintro ⟨_, ⟨k, rfl⟩, _, hds, rfl⟩
    obtain ⟨a, b, c, bs, m, e, n, hk, hbs, he, rfl⟩ := letWord_parts_iff.1 hds
    exact ⟨a, b, c, bs, m, e, n, List.ne_nil_of_length_eq_add_one hk, hbs, he, rfl⟩
  · rintro ⟨a, b, c, bs, m, e, n, hne, hbs, he, rfl⟩
    obtain ⟨k, hk⟩ := Nat.exists_eq_succ_of_ne_zero (List.length_pos_iff.2 hne).ne'
    exact ⟨_, ⟨k, rfl⟩, _, letWord_parts_iff.2 ⟨a, b, c, bs, m, e, n, hk, hbs, he, rfl⟩, rfl⟩

theorem Valid.yield_ne_nil {d : Derivation} (h : d.Valid) : d.yield ≠ [] := by
  induction h with
  | leaf => exact List.cons_ne_nil _ _
  | @node n ds hw _ ih =>
    cases ds with
    | nil => exact absurd rfl (word_of_body hw).1
    | cons d ds => simp [yield, yieldAll, ih d (by simp)]

end Derivation

end ArithLine.Grammar

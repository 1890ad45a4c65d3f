import ArithLine.Proofs.Grammar.Operands
import ArithLine.Proofs.Grammar.Completeness
import ArithLine.Proofs.Grammar.Soundness
import ArithLine.Reading

/-!
# The grammar is unambiguous

A parse tree shows the derivation that it comes from: the first tree of a layer tells
which alternative was taken (`exists_first`), and the children of a node tell how often
a part was repeated (`word_eq_of_rule`). With the two directions of the reader this gives
the main result, `Source.tree_iff_derives`: reading a source is finding its derivation.
-/

namespace ArithLine

open Grammar Derivation

namespace Grammar.Derivation

variable {line : List Char}

theorem not_isNumeral_minus (ds : List Char) : ¬ Word.isNumeral ('-' :: ds) := by
  simp [Word.isNumeral]

/-- Among the lexemes of a kind, each is known by its characters. -/
theorem admits_ext {k : Terminal} {l l' : Lexeme} (h : k.Admits l) (h' : k.Admits l')
    (hc : l.chars = l'.chars) : l = l' := by
  cases k <;> cases l <;> cases l' <;>
    simp_all [Terminal.Admits, Lexeme.chars, not_isNumeral_minus]
  case numeral.signed.word ds w => exact absurd (hc ▸ h') (not_isNumeral_minus ds)

/-- The parse trees of a derivation of a symbol show what it is and where it ends. -/
def Decodes (line : List Char) (s : Symbol) (d : Derivation) : Prop :=
  ∀ e r r', Of s e → d.lower line ++ r = e.lower line ++ r' → d = e ∧ r = r'

theorem decodes_terminal {k : Terminal} {d : Derivation} (hd : Of (.terminal k) d) :
    Decodes line (.terminal k) d := by
  intro e r r' he h
  obtain ⟨⟨l, m⟩, ht, rfl⟩ := of_terminal_iff.1 hd
  obtain ⟨⟨l', n⟩, hu, rfl⟩ := of_terminal_iff.1 he
  simp only [lower, List.singleton_append, List.cons.injEq] at h
  have htree : Token.text ⟨l, m⟩ = Token.text ⟨l', n⟩ ∧ Token.span ⟨l, m⟩ = Token.span ⟨l', n⟩ := by
    -- both are bad words or both are tokens, since the kind is the same
    by_cases hk : k = .unknown
    · rw [if_pos hk, if_pos hk] at h
      exact Tree.bad.inj h.1
    · rw [if_neg hk, if_neg hk] at h
      exact Tree.token.inj h.1
  obtain rfl : l = l' := admits_ext ht hu (String.ofList_injective htree.1)
  obtain rfl : m = n := congrArg Span.start htree.2
  exact ⟨rfl, h.2⟩

/-- The parse trees of some derivations show what these are, if each of them does. -/
theorem decodes_all {w : List Symbol} {ds es : List Derivation} {r r' : List Tree}
    (hd : List.Forall₂ (Decodes line) w ds) (he : List.Forall₂ Of w es)
    (h : lowerAll line ds ++ r = lowerAll line es ++ r') : ds = es ∧ r = r' := by
  induction hd generalizing es r r' with
  | nil =>
    obtain rfl := List.forall₂_nil_left_iff.1 he
    exact ⟨rfl, h⟩
  | cons hd _ ih =>
    obtain ⟨e, es, hoe, hes, rfl⟩ := List.forall₂_cons_left_iff.1 he
    rw [lowerAll, lowerAll, List.append_assoc, List.append_assoc] at h
    obtain ⟨rfl, htail⟩ := hd e _ _ hoe h
    obtain ⟨rfl, hr⟩ := ih hes htail
    exact ⟨rfl, hr⟩

/-! ## Which word a rule has -/

/-- The word of a layer, by the rule of its first parse tree and by whether that is a bad word. -/
def firstWord (bad : Bool) : Layer → Option Rule → List Symbol
  | .sum, some (.chain o) => if o.isTight then [.layer .product] else [.rule (.chain o)]
  | .sum, _ => [.layer .product]
  | .product, some (.chain o) => [.rule (.chain o)]
  | .product, _ => [.layer .atom]
  | .atom, some r => [.rule r]
  | .atom, none =>
    if bad then [.terminal .unknown] else [.glyph .opening, .rule .expr, .glyph .closing]
  | .binding, _ => [.glyph .opening, .terminal .name, .rule .expr, .glyph .closing]

/-- Whether a parse tree is a bad word. -/
def isBad : Tree → Bool
  | .bad _ _ => true
  | _ => false

variable {w : List Symbol} {ds : List Derivation}

/-- An atom starts with a parse tree that shows its word and is no chain. -/
theorem exists_first_atom (line : List Char) (hw : w ∈ (body (.layer .atom)).matches')
    (hds : List.Forall₂ Of w ds) :
    ∃ t ts, lowerAll line ds = t :: ts ∧ firstWord (isBad t) .atom t.rule? = w ∧
      ∀ o, t.rule? ≠ some (.chain o) := by
  rcases mem_body_atom.1 hw with rfl | rfl | rfl | rfl | rfl
  · obtain ⟨d, hd, rfl⟩ := one_part_iff.1 hds
    obtain ⟨a, b, c, bs, m, e, n, -, -, -, rfl⟩ := of_letForm_iff.1 hd
    exact ⟨_, _, rfl, rfl, by simp [Tree.rule?]⟩
  · obtain ⟨d, hd, rfl⟩ := one_part_iff.1 hds
    obtain ⟨t, -, rfl⟩ := of_numeral_iff.1 hd
    exact ⟨_, _, rfl, rfl, by simp [Tree.rule?]⟩
  · obtain ⟨d, hd, rfl⟩ := one_part_iff.1 hds
    obtain ⟨u, n, -, rfl⟩ := of_var_iff.1 hd
    exact ⟨_, _, rfl, rfl, by simp [Tree.rule?]⟩
  · obtain ⟨d, ds, hd, -, rfl⟩ := List.forall₂_cons_left_iff.1 hds
    obtain ⟨n, rfl⟩ := of_glyph_iff.1 hd
    exact ⟨_, _, rfl, rfl, by simp [Tree.rule?, Token.leaf]⟩
  · obtain ⟨d, hd, rfl⟩ := one_part_iff.1 hds
    obtain ⟨u, n, -, rfl⟩ := of_unknown_iff.1 hd
    exact ⟨_, _, rfl, rfl, by simp [Tree.rule?]⟩

/-- A product starts with a parse tree that shows its word and is no sum. -/
theorem exists_first_product (line : List Char) (hw : w ∈ (body (.layer .product)).matches')
    (hds : List.Forall₂ Of w ds) :
    ∃ t ts, lowerAll line ds = t :: ts ∧ firstWord (isBad t) .product t.rule? = w ∧
      ∀ o, t.rule? = some (.chain o) → o.isTight = true := by
  rcases mem_body_product.1 hw with ⟨o, ho, rfl⟩ | rfl
  · obtain ⟨d, hd, rfl⟩ := one_part_iff.1 hds
    obtain ⟨k, e, es, -, -, rfl⟩ := of_chain_iff.1 hd
    exact ⟨_, _, rfl, rfl, by simp [Tree.rule?, ho]⟩
  · obtain ⟨d, hd, rfl⟩ := one_part_iff.1 hds
    obtain ⟨u, hu, es, hes, rfl⟩ := of_nonterminal_iff.1 hd
    obtain ⟨t, ts, ht, -, hr⟩ := exists_first_atom line hu hes
    refine ⟨t, ts, by rw [lowerAll_layer, ht], ?_, fun o h => absurd h (hr o)⟩
    unfold firstWord
    split
    all_goals simp_all

/-- A layer starts with a parse tree that shows its word. -/
theorem exists_first (line : List Char) {l : Layer} (hw : w ∈ (body (.layer l)).matches')
    (hds : List.Forall₂ Of w ds) :
    ∃ t ts, lowerAll line ds = t :: ts ∧ firstWord (isBad t) l t.rule? = w := by
  cases l with
  | sum =>
    rcases mem_body_sum.1 hw with ⟨o, ho, rfl⟩ | rfl
    · obtain ⟨d, hd, rfl⟩ := one_part_iff.1 hds
      obtain ⟨k, e, es, -, -, rfl⟩ := of_chain_iff.1 hd
      exact ⟨_, _, rfl, by simp [firstWord, Tree.rule?, ho]⟩
    · obtain ⟨d, hd, rfl⟩ := one_part_iff.1 hds
      obtain ⟨u, hu, es, hes, rfl⟩ := of_nonterminal_iff.1 hd
      obtain ⟨t, ts, ht, -, hr⟩ := exists_first_product line hu hes
      refine ⟨t, ts, by rw [lowerAll_layer, ht], ?_⟩
      unfold firstWord
      split
      all_goals simp_all
  | product =>
    obtain ⟨t, ts, ht, h, -⟩ := exists_first_product line hw hds
    exact ⟨t, ts, ht, h⟩
  | atom =>
    obtain ⟨t, ts, ht, h, -⟩ := exists_first_atom line hw hds
    exact ⟨t, ts, ht, h⟩
  | binding =>
    obtain rfl := mem_body_binding.1 hw
    obtain ⟨d, ds, hd, -, rfl⟩ := List.forall₂_cons_left_iff.1 hds
    obtain ⟨n, rfl⟩ := of_glyph_iff.1 hd
    exact ⟨_, _, rfl, rfl⟩

theorem length_lower_expr {d : Derivation} (hd : Of (.rule .expr) d) :
    (d.lower line).length = 1 := by
  obtain ⟨ts, sp, h⟩ := exists_lower_expr line hd
  rw [h, List.length_singleton]

theorem length_lower_bindings (line : List Char) (h : ∀ d ∈ ds, Of (.layer .binding) d) :
    (lowerAll line ds).length = 4 * ds.length := by
  induction ds with
  | nil => rfl
  | cons d ds ih =>
    obtain ⟨m, u, n, e, k, -, he, rfl⟩ := of_binding_iff.1 (h d (by simp))
    have := ih fun d hd => h d (by simp [hd])
    simp [lowerAll, lower, length_lower_expr he, this]
    omega

/-- A let form has four children for each binding and six others. -/
theorem length_lower_letForm {k : ℕ} (hds : List.Forall₂ Of (letWord k) ds) :
    (lowerAll line ds).length = 4 * k + 6 := by
  obtain ⟨a, b, c, bs, m, e, n, hk, hbs, he, rfl⟩ := letWord_parts_iff.1 hds
  have hlen := length_lower_bindings line hbs
  simp [letHead, letTail, lowerAll, lower, hlen, hk, length_lower_expr he]

/-- The parse trees below a node show the word of its rule. -/
theorem word_eq_of_rule {r : Rule} {w' : List Symbol} {es : List Derivation}
    (hw : w ∈ (body (.rule r)).matches') (hw' : w' ∈ (body (.rule r)).matches')
    (hds : List.Forall₂ Of w ds) (hes : List.Forall₂ Of w' es)
    (h : lowerAll line ds = lowerAll line es) : w = w' := by
  cases r with
  | chain o =>
    obtain ⟨k, rfl⟩ := mem_body_chain.1 hw
    obtain ⟨k', rfl⟩ := mem_body_chain.1 hw'
    have hlen := congrArg (fun ts => (Tree.operandsOf o ts).length) h
    simp only [length_operandsOf line hds, length_operandsOf line hes] at hlen
    have hk : k = k' := by omega
    rw [hk]
  | letForm =>
    obtain ⟨k, rfl⟩ := mem_body_letForm.1 hw
    obtain ⟨k', rfl⟩ := mem_body_letForm.1 hw'
    have hlen := congrArg List.length h
    rw [length_lower_letForm hds, length_lower_letForm hes] at hlen
    have hk : k = k' := by omega
    rw [hk]
  | program => rw [mem_rule.1 hw, mem_rule.1 hw']
  | expr => rw [mem_layer.1 hw, mem_layer.1 hw']
  | var => rw [mem_token.1 hw, mem_token.1 hw']
  | numeral => rw [mem_token.1 hw, mem_token.1 hw']

/-- **The parse trees of a derivation show it.** -/
theorem Valid.decodes {d : Derivation} (hd : d.Valid) (line : List Char) :
    Decodes line d.symbol d := by
  induction hd with
  | leaf admits => exact decodes_terminal ⟨rfl, .leaf admits⟩
  | @node n ds hw hv ih =>
    intro e r r' he h
    obtain ⟨w', hw', es, hes, rfl⟩ := of_nonterminal_iff.1 he
    have hds := valid_parts_iff.2 ⟨rfl, hv⟩
    have hdec : List.Forall₂ (Decodes line) (ds.map symbol) ds := by
      rw [List.forall₂_map_left_iff, List.forall₂_same]
      exact ih
    cases n with
    | rule rl =>
      -- the node keeps its children apart from what follows
      rw [lower, lower, List.singleton_append, List.singleton_append, List.cons.injEq] at h
      obtain ⟨h, rfl⟩ := h
      have hall := (Tree.node.inj h).2.1
      obtain rfl := word_eq_of_rule hw hw' hds hes hall
      have heq : lowerAll line ds ++ [] = lowerAll line es ++ [] := by rw [hall]
      obtain ⟨rfl, -⟩ := decodes_all hdec hes heq
      exact ⟨rfl, rfl⟩
    | layer l =>
      -- nothing keeps the parts of a layer apart, but its first parse tree tells its word
      obtain ⟨t, ts, ht, hwt⟩ := exists_first line hw hds
      obtain ⟨u, us, hu, hwu⟩ := exists_first line hw' hes
      rw [lower, lower] at h
      have htu : t = u := by
        rw [ht, hu] at h; exact (List.cons.inj h).1
      obtain rfl : ds.map symbol = w' := by rw [← hwt, ← hwu, htu]
      obtain ⟨rfl, hr⟩ := decodes_all hdec hes h
      exact ⟨rfl, hr⟩

end Grammar.Derivation

/-- The tree of a source is that of its content. -/
theorem Source.tree_eq_ok_iff {s : Source} {t : Tree} :
    s.tree = .ok t ↔ Tree.ofLine s.content = .ok t := by
  cases h : Tree.ofLine s.content <;> simp [Source.tree, h, Except.mapError]

/-- A source is refused where its content is. -/
theorem Source.tree_eq_error_iff {s : Source} {f : Failure} :
    s.tree = .error f ↔ ∃ r, Tree.ofLine s.content = .error r ∧ f = .rejected s r := by
  cases h : Tree.ofLine s.content <;> simp [Source.tree, h, Except.mapError, eq_comm]

/-- **A line has at most one derivation.** -/
theorem Derives.unique {line : String} {d e : Derivation} (hd : Derives line d)
    (he : Derives line e) : d = e := by
  obtain ⟨t, ht, hdt⟩ := hd.ofLine
  obtain ⟨u, hu, heu⟩ := he.ofLine
  obtain rfl : t = u := by rw [ht] at hu; exact Except.ok.inj hu
  have := hd.valid.decodes line.toList e [] [] ⟨by rw [he.symbol, hd.symbol], he.valid⟩
    (by rw [hdt, heu])
  exact this.1

/-- **Reading finds the derivation.** A source has a parse tree just if its line has a
derivation, the tree is that derivation without its layers, no line has two derivations,
and a line that has none is rejected. -/
theorem Source.tree_iff_derives (s : Source) :
    (∀ t, s.tree = .ok t ↔ ∃ d, Derives s.content d ∧ d.lower s.content.toList = [t]) ∧
    {d | Derives s.content d}.Subsingleton ∧
    ((∃ r, s.tree = .error (.rejected s r)) ↔ ¬ ∃ d, Derives s.content d) := by
  refine ⟨fun t => ⟨fun h => ?_, ?_⟩, fun d hd e he => hd.unique he, ?_, fun h => ?_⟩
  · exact exists_derives_of_ofLine (Source.tree_eq_ok_iff.1 h)
  · rintro ⟨d, hd, hdt⟩
    obtain ⟨u, hu, hdu⟩ := hd.ofLine
    obtain rfl : t = u := by simpa [hdt] using hdu
    exact Source.tree_eq_ok_iff.2 hu
  · rintro ⟨r, hr⟩ ⟨d, hd⟩
    obtain ⟨u, hu, -⟩ := hd.ofLine
    rw [Source.tree_eq_ok_iff.2 hu] at hr
    cases hr
  · cases ht : Tree.ofLine s.content with
    | ok t =>
      obtain ⟨d, hd, -⟩ := exists_derives_of_ofLine ht
      exact absurd ⟨d, hd⟩ h
    | error r => exact ⟨r, by rw [Source.tree, ht]; rfl⟩

end ArithLine

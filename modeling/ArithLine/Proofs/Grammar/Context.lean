import ArithLine.Proofs.Grammar.Completeness
import ArithLine.Proofs.Grammar.Cover
import ArithLine.Proofs.Grammar.Respelling
import ArithLine.Proofs.Grammar.Soundness

/-!
# Operands in their places

* `Tree.Context`: a parse tree with a hole in the place of one of its parts.
* `Tree.IsWord`: an operand that is one word, so a number without a sign, a name or a bad word.
* `Valid.exchanges`: in the place of such an operand of a derivation any other word may stand.
  A number, a name and a bad word are different atoms, and nothing but an atom has any of them
  as its part, so it is the atom around the word that is exchanged.
* `Derives.exists_exchanged`: so the line with another word there has a derivation.
-/

namespace ArithLine

open Grammar Derivation

/-! ## Places in a list -/

theorem singleton_eq_append_cons {α : Type} {a b : α} {as bs : List α} (h : [a] = as ++ b :: bs) :
    as = [] ∧ b = a ∧ bs = [] := by
  cases as with
  | nil =>
    obtain ⟨rfl, rfl⟩ := List.cons.inj h
    exact ⟨rfl, rfl, rfl⟩
  | cons c as => simp at h

theorem append_eq_append_cons {α : Type} {as bs cs ds : List α} {a : α}
    (h : as ++ bs = cs ++ a :: ds) :
    (∃ es, as = cs ++ a :: es ∧ ds = es ++ bs) ∨ ∃ es, cs = as ++ es ∧ bs = es ++ a :: ds := by
  rcases List.append_eq_append_iff.1 h with ⟨es, rfl, hbs⟩ | ⟨es, rfl, hds⟩
  · exact .inr ⟨es, rfl, hbs⟩
  · cases es with
    | nil => exact .inr ⟨[], by simp, hds.symm⟩
    | cons e es =>
      obtain ⟨rfl, rfl⟩ := List.cons.inj hds
      exact .inl ⟨es, rfl, rfl⟩

/-! ## Holes -/

/-- A parse tree with a hole in the place of one of its parts. -/
inductive Tree.Context where
  | hole
  | node (rule : Rule) (before : List Tree) (inner : Tree.Context) (after : List Tree) (span : Span)

namespace Tree

/-- The parse tree with a part in the place of the hole. -/
def Context.fill : Context → Tree → Tree
  | hole, t => t
  | node r before c after s, t => .node r (before ++ c.fill t :: after) s

/-- Whether a parse tree is an operand that is a word, without a sign. -/
inductive IsWord (x : String) (sp : Span) : Tree → Prop
  | numeral (s : Span) (unsigned : x.toList.head? ≠ some '-') :
    IsWord x sp (node .numeral [token x sp] s)
  | var (s : Span) : IsWord x sp (node .var [token x sp] s)
  | bad : IsWord x sp (bad x sp)

variable {x : String} {sp : Span} {u : Tree} {before after : List Tree} {c : Context}

theorem IsWord.ne_token (h : IsWord x sp u) (s : String) (sp' : Span) : u ≠ token s sp' := by
  cases h <;> nofun

/-- A token is not filled with a word. -/
theorem IsWord.fill_ne_token (h : IsWord x sp u) (s : String) (sp' : Span) :
    c.fill u ≠ token s sp' := by
  cases c with
  | hole => exact h.ne_token s sp'
  | node => nofun

/-- A node that is filled with a word is filled further down, if it is no word itself. -/
theorem IsWord.exists_inner (h : IsWord x sp u) {r : Rule} {ts : List Tree} {s : Span}
    (hr : r ≠ .numeral ∧ r ≠ .var) (hc : c.fill u = node r ts s) :
    ∃ b d a, c = .node r b d a s ∧ ts = b ++ d.fill u :: a := by
  cases c with
  | hole =>
    obtain rfl : u = node r ts s := hc
    cases h with
    | numeral => exact absurd rfl hr.1
    | var => exact absurd rfl hr.2
  | node r' b d a s' =>
    obtain ⟨rfl, rfl, rfl⟩ := Tree.node.inj hc
    exact ⟨b, d, a, rfl, rfl⟩

/-- A node around a token is filled with a word just if it is one. -/
theorem IsWord.eq_of_node (h : IsWord x sp u) {r : Rule} {y : String} {s s' : Span}
    (hc : c.fill u = node r [token y s'] s) : c = .hole := by
  cases c with
  | hole => rfl
  | node r' b d a s'' =>
    obtain ⟨-, hts, -⟩ := Tree.node.inj hc
    have hmem : d.fill u ∈ [token y s'] := hts ▸ by simp
    exact absurd (List.mem_singleton.1 hmem) (h.fill_ne_token y s')

end Tree

/-! ## Words in a derivation -/

namespace Grammar

/-- Whether a symbol stands for an operand that is one token. -/
def Symbol.isWord : Symbol → Bool
  | .nonterminal (.rule .numeral) | .nonterminal (.rule .var) | .terminal .unknown => true
  | _ => false

/-- Nothing but an atom has operands that are one token among its parts. -/
theorem eq_atom_of_isWord {n : Nonterminal} {w : List Symbol} {s : Symbol}
    (h : w ∈ (body n).matches') (hs : s ∈ w) (hw : s.isWord) : n = .layer .atom := by
  have hall : ∀ m : Nonterminal, ∀ t ∈ symbols (body m), t.isWord = true → m = .layer .atom := by
    rintro ((_ | _ | _ | _ | (_ | _ | _ | _) | _) | (_ | _ | _ | _)) <;> decide
  exact hall n s (mem_symbols h s hs) hw

namespace Derivation

/-- Whether in the place of a word among the tokens of some derivations any other word may
stand, and their parse trees are then what a function makes of that. -/
def Exchanges (ds : List Derivation) (x : String) (sp : Span) (trees : Tree → List Tree) : Prop :=
  ∃ ts t us, yieldAll ds = ts ++ t :: us ∧ t.text = x ∧ t.span = sp ∧ (∃ w, t.lexeme = .word w) ∧
    ∀ (w : List Char) (n : ℕ), ∃ es, List.Forall₂ Of (ds.map symbol) es ∧
      yieldAll es = ts ++ ⟨.word w, n⟩ :: us ∧ ∀ line,
        (lowerAll line es).map Tree.bare = (trees (Token.operand ⟨.word w, n⟩)).map Tree.bare

variable {line : List Char} {d : Derivation} {ds : List Derivation} {x : String} {sp : Span}
  {u : Tree} {c : Tree.Context} {before after : List Tree} {trees : Tree → List Tree}

/-- The only token of an atom, if it is a word. -/
theorem exchanges_atom {t : Token} (hyield : d.yield = [t]) (hd : d.symbol = .layer .atom)
    (ht : ∃ w, t.lexeme = .word w) : Exchanges [d] t.text t.span fun v => [v] := by
  refine ⟨[], t, [], by simpa using hyield, rfl, rfl, ht, fun w n => ?_⟩
  obtain ⟨a, ha, hlow, hyield'⟩ := Unfinished.exists_atom [] (t := ⟨.word w, n⟩) (by simp) (by simp)
  refine ⟨[a], .cons (hd ▸ ha) .nil, by simpa using hyield', fun line => ?_⟩
  rw [lowerAll_singleton, bare_lower [] line, hlow]

theorem Exchanges.layer {l : Layer} (h : Exchanges ds x sp trees)
    (hw : ds.map symbol ∈ (body (.layer l)).matches') :
    Exchanges [node (.layer l) ds] x sp trees := by
  obtain ⟨ts, t, us, hyield, htext, hspan, hword, hex⟩ := h
  refine ⟨ts, t, us, by simpa [yield] using hyield, htext, hspan, hword, fun w n => ?_⟩
  obtain ⟨es, hes, hyield', hbare⟩ := hex w n
  have hd : Of (.layer l) (node (.layer l) es) := of_nonterminal_iff.2 ⟨_, hw, es, hes, rfl⟩
  exact ⟨[node (.layer l) es], .cons hd .nil, by simpa [yield] using hyield',
    fun line => by rw [lowerAll_layer, hbare]⟩

theorem Exchanges.rule {r : Rule} (h : Exchanges ds x sp trees)
    (hw : ds.map symbol ∈ (body (.rule r)).matches') (s : Span) :
    Exchanges [node (.rule r) ds] x sp fun v => [.node r (trees v) s] := by
  obtain ⟨ts, t, us, hyield, htext, hspan, hword, hex⟩ := h
  refine ⟨ts, t, us, by simpa [yield] using hyield, htext, hspan, hword, fun w n => ?_⟩
  obtain ⟨es, hes, hyield', hbare⟩ := hex w n
  have hd : Of (.rule r) (node (.rule r) es) := of_nonterminal_iff.2 ⟨_, hw, es, hes, rfl⟩
  exact ⟨[node (.rule r) es], .cons hd .nil, by simpa [yield] using hyield',
    fun line => by simp [lower, Tree.bare, Tree.bareAll_eq, hbare]⟩

/-- A word in one of some parts. -/
theorem exchanges_parts (hv : ∀ d ∈ ds, d.Valid)
    (hd : ∀ d ∈ ds, ∀ before after, d.lower line = before ++ c.fill u :: after →
      Exchanges [d] x sp fun v => before ++ c.fill v :: after)
    (h : lowerAll line ds = before ++ c.fill u :: after) :
    Exchanges ds x sp fun v => before ++ c.fill v :: after := by
  induction ds generalizing before with
  | nil => simp [lowerAll] at h
  | cons d ds ih =>
    obtain ⟨hvd, hvs⟩ := List.forall_mem_cons.1 hv
    rw [lowerAll] at h
    rcases append_eq_append_cons h with ⟨rest, hlow, rfl⟩ | ⟨rest, rfl, hlow⟩
    · -- the part itself has the word
      obtain ⟨ts, t, us, hyield, htext, hspan, hword, hex⟩ := hd d (by simp) before rest hlow
      rw [yieldAll_singleton] at hyield
      refine ⟨ts, t, us ++ yieldAll ds, by simp [yieldAll, hyield], htext, hspan, hword,
        fun w n => ?_⟩
      obtain ⟨es, hes, hyield', hbare⟩ := hex w n
      refine ⟨es ++ ds, List.rel_append hes (valid_parts_iff.2 ⟨rfl, hvs⟩), by simp [hyield'],
        fun line' => ?_⟩
      simp [hbare, bare_lowerAll line line' ds]
    · obtain ⟨ts, t, us, hyield, htext, hspan, hword, hex⟩ :=
        ih hvs (fun e he => hd e (by simp [he])) hlow
      refine ⟨d.yield ++ ts, t, us, by simp [yieldAll, hyield], htext, hspan, hword, fun w n => ?_⟩
      obtain ⟨es, hes, hyield', hbare⟩ := hex w n
      refine ⟨d :: es, .cons ⟨rfl, hvd⟩ hes, by simp [yieldAll, hyield'], fun line' => ?_⟩
      simp [lowerAll, hbare, bare_lower line line' d]

/-- A numeral whose text has no minus is a word. -/
theorem exists_word_of_unsigned {t : Token} (ht : Terminal.numeral.Admits t.lexeme)
    (h : t.text.toList.head? ≠ some '-') : ∃ w, t.lexeme = .word w := by
  obtain ⟨g | w | ds, n⟩ := t
  · cases ht
  · exact ⟨w, rfl⟩
  · exact absurd (by simp [Token.text, Lexeme.chars]) h

/-- An atom with a word in it is the word, unless the word is in a part of a let form or of
parentheses. -/
theorem exchanges_isAtom (hds : IsAtom ds) (hw : ds.map symbol ∈ (body (.layer .atom)).matches')
    (hu : u.IsWord x sp) (h : lowerAll line ds = before ++ c.fill u :: after)
    (hparts : (∀ d ∈ ds, d.symbol.isWord = false) →
      Exchanges ds x sp fun v => before ++ c.fill v :: after) :
    Exchanges [node (.layer .atom) ds] x sp fun v => before ++ c.fill v :: after := by
  cases hds with
  | @letForm e he =>
    have hsymbol : ∀ d ∈ [e], d.symbol.isWord = false := by
      simp only [List.mem_singleton, forall_eq, he.symbol]
      rfl
    exact (hparts hsymbol).layer hw
  | @group e m n he =>
    have hsymbol : ∀ d ∈ [Derivation.leaf (.glyph .opening) ⟨.glyph .opening, m⟩, e,
        Derivation.leaf (.glyph .closing) ⟨.glyph .closing, n⟩], d.symbol.isWord = false := by
      simp only [List.forall_mem_cons, he.symbol]
      exact ⟨rfl, rfl, rfl, List.forall_mem_nil _⟩
    exact (hparts hsymbol).layer hw
  | numeral he =>
    obtain ⟨t, ht, rfl⟩ := of_numeral_iff.1 he
    obtain ⟨rfl, hnode, rfl⟩ := singleton_eq_append_cons h
    obtain rfl := hu.eq_of_node hnode
    obtain rfl : u = _ := hnode
    cases hu with
    | numeral s unsigned => exact exchanges_atom rfl rfl (exists_word_of_unsigned ht unsigned)
  | var he =>
    obtain ⟨w, n, hw, rfl⟩ := of_var_iff.1 he
    obtain ⟨rfl, hnode, rfl⟩ := singleton_eq_append_cons h
    obtain rfl := hu.eq_of_node hnode
    obtain rfl : u = _ := hnode
    cases hu with
    | var s => exact exchanges_atom rfl rfl ⟨w, rfl⟩
  | unknown he =>
    obtain ⟨w, n, hw, rfl⟩ := of_unknown_iff.1 he
    obtain ⟨rfl, hbad, rfl⟩ := singleton_eq_append_cons h
    cases c with
    | node => cases hbad
    | hole =>
      obtain rfl : u = _ := hbad
      cases hu with
      | bad => exact exchanges_atom rfl rfl ⟨w, rfl⟩

/-- **In the place of an operand that is a word any other word may stand.** -/
theorem Valid.exchanges (hd : d.Valid) (hs : d.symbol.isWord = false) (hu : u.IsWord x sp)
    (h : d.lower line = before ++ c.fill u :: after) :
    Exchanges [d] x sp fun v => before ++ c.fill v :: after := by
  induction hd generalizing before after c with
  | @leaf k t admits =>
    have hk : k ≠ .unknown := by
      rintro rfl
      cases hs
    rw [lower, if_neg hk] at h
    exact absurd (singleton_eq_append_cons h).2.1 (hu.fill_ne_token _ _)
  | @node n ds hw hv ih =>
    -- no part is a word but for those of an atom, and they are in the place of the hole
    have hparts : ∀ {b a e}, (∀ d ∈ ds, d.symbol.isWord = false) →
        lowerAll line ds = b ++ Tree.Context.fill e u :: a →
        Exchanges ds x sp fun v => b ++ e.fill v :: a := fun hsymbol hlow =>
      exchanges_parts hv (fun d hd _ _ hlow => ih d hd (hsymbol d hd) hlow) hlow
    by_cases hatom : n = .layer .atom
    · subst hatom
      obtain ⟨es, hes, heq⟩ := of_atom_iff.1 ⟨rfl, .node hw hv⟩
      obtain rfl := (Derivation.node.inj heq).2
      rw [lower] at h
      exact exchanges_isAtom hes hw hu h fun hsymbol => hparts hsymbol h
    · have hsymbol : ∀ d ∈ ds, d.symbol.isWord = false := by
        intro d hd
        by_contra hword
        exact hatom (eq_atom_of_isWord hw (List.mem_map_of_mem hd) (by simpa using hword))
      cases n with
      | layer l => exact (hparts hsymbol h).layer hw
      | rule r =>
        have hr : r ≠ .numeral ∧ r ≠ .var := by
          constructor <;> rintro rfl <;> cases hs
        rw [lower] at h
        obtain ⟨rfl, hnode, rfl⟩ := singleton_eq_append_cons h
        obtain ⟨b, e, a, rfl, hlow⟩ := hu.exists_inner hr hnode
        exact (hparts hsymbol hlow).rule hw _

end Derivation

end Grammar

/-- **A line with another word in the place of an operand is read in the same way.** -/
theorem Derives.exists_exchanged {line : String} {d : Derivation} {c : Tree.Context} {u : Tree}
    {x : String} {sp : Span} (hd : Derives line d) (hlow : d.lower line.toList = [c.fill u])
    (hu : u.IsWord x sp) : ∃ before after, line.toList = before ++ (x.toList ++ after) ∧
      sp = ⟨byteLength before, byteLength before + byteLength x.toList⟩ ∧
      x.toList.all isWordChar ∧ ∀ w : List Char, w ≠ [] → w.all isWordChar →
        ∃ t, Tree.ofLine (.ofList (before ++ (w ++ after))) = .ok t ∧
          t.bare = (c.fill (Token.operand ⟨.word w, byteLength before⟩)).bare := by
  have hsymbol : d.symbol.isWord = false := by
    rw [hd.symbol]
    rfl
  have hfill : d.lower line.toList = [] ++ c.fill u :: [] := hlow
  obtain ⟨ts, t, us, hyield, rfl, rfl, ⟨v, hv⟩, hex⟩ := hd.valid.exchanges hsymbol hu hfill
  rw [yieldAll_singleton] at hyield
  have hcov := hd.covers
  rw [hyield] at hcov
  obtain ⟨before, after, hline, hstart, hts, hprec, hus, hr⟩ := hcov.split
  have htext : t.text.toList = t.lexeme.chars := by rw [Token.text, String.toList_ofList]
  rw [Nat.zero_add] at hstart
  -- the text before the word ends with no word character, and none follows it
  rw [hv] at hprec hr htext
  obtain ⟨hne, hword, hafter⟩ := hprec
  refine ⟨before, after, by rw [hline, htext, hv], ?_, by rwa [htext], fun w hw hall => ?_⟩
  · rw [Token.span, Token.stop, htext, hv, hstart]
  · have hbefore : ¬ RunsInto before (w ++ after) := fun h => hr (runsInto_word h.1 hne hword after)
    have hprec : (Lexeme.word w).Precedes after := ⟨hw, hall, hafter⟩
    obtain ⟨us', hus', hline'⟩ := hts.exists_between hus hprec hbefore
    rw [Nat.zero_add, Lexeme.chars] at hline'
    obtain ⟨es, hes, hyield', hbare⟩ := hex w (byteLength before)
    obtain ⟨d', hd', rfl⟩ := one_part_iff.1 hes
    rw [hd.symbol] at hd'
    rw [yieldAll_singleton] at hyield'
    obtain ⟨e, he, -, hebare⟩ := Derives.of_placed hd' (by simp [hyield', hus']) hline'
    obtain ⟨t', ht', hlow'⟩ := he.ofLine
    refine ⟨t', ht', ?_⟩
    have hmap := hebare (String.ofList (before ++ (w ++ after))).toList
    rw [hlow', ← lowerAll_singleton, hbare] at hmap
    simpa using hmap

end ArithLine

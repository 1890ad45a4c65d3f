import ArithLine.Proofs.Blanks
import ArithLine.Proofs.Grammar.Occurrence

/-!
# A dump shows its tree

A dump writes the parentheses of a line and those that it adds with the same characters, and does
not tell bad words from tokens. Both can be read off it all the same.

* `Tree.IsShown`: what a dump shows of a tree. A node has children; a leaf is a parenthesis or has
  none in it; whether a word is bad follows from the rule above it.
* `Tree.IsShown.dumpsApart`: trees of this form are told apart by their dumps, because a space
  follows the parenthesis of a line and a name follows the one that opens a node.
* `Grammar.Derivation.Valid.isShown`: the parse trees of a derivation have this form.
* `Source.readsSame_of_dump`: so sources with one dump are read the same.
-/

namespace ArithLine

open Grammar Derivation

/-! ## Leaves -/

/-- Whether a character may stand in a leaf that is no parenthesis. -/
def isLeafChar (c : Char) : Bool := c != ' ' && c != '(' && c != ')'

/-- Whether a text ends where it stands in a dump: a space or a parenthesis follows, if
anything does. -/
def EndsLeaf (rest : List Char) : Prop := ∀ c ∈ rest.head?, c = ' ' ∨ c = ')'

/-- The texts of leaves. -/
inductive IsLeafText : List Char → Prop
  | opening : IsLeafText ['(']
  | closing : IsLeafText [')']
  | word {cs : List Char} (hne : cs ≠ []) (h : cs.all isLeafChar) : IsLeafText cs

variable {cs cs' rest rest' : List Char}

theorem EndsLeaf.takeWhile_eq (h : EndsLeaf rest) (hcs : cs.all isLeafChar) :
    (cs ++ rest).takeWhile isLeafChar = cs := by
  rw [List.takeWhile_append_of_pos (List.all_eq_true.1 hcs)]
  cases rest with
  | nil => rw [List.takeWhile_nil, List.append_nil]
  | cons c rest =>
    have hc : isLeafChar c = false := by
      rcases h c rfl with rfl | rfl <;> rfl
    rw [List.takeWhile_cons_of_neg (by simp [hc]), List.append_nil]

/-- A word in a dump is all that stands before the next space or parenthesis. -/
theorem EndsLeaf.append_inj (h : EndsLeaf rest) (h' : EndsLeaf rest') (hcs : cs.all isLeafChar)
    (hcs' : cs'.all isLeafChar) (heq : cs ++ rest = cs' ++ rest') : cs = cs' ∧ rest = rest' := by
  have hword : cs = cs' := by
    rw [← h.takeWhile_eq hcs, heq, h'.takeWhile_eq hcs']
  subst hword
  exact ⟨rfl, List.append_cancel_left heq⟩

theorem IsLeafText.append_inj (hcs : IsLeafText cs) (hcs' : IsLeafText cs') (h : EndsLeaf rest)
    (h' : EndsLeaf rest') (heq : cs ++ rest = cs' ++ rest') : cs = cs' ∧ rest = rest' := by
  have hparen : ∀ {c : Char} {us : List Char}, (isLeafChar c = false) → us ≠ [] →
      us.all isLeafChar → ∀ {r r'}, [c] ++ r ≠ us ++ r' := by
    intro c us hc hne hus r r' heq
    obtain ⟨d, us, rfl⟩ := List.exists_cons_of_ne_nil hne
    obtain ⟨rfl, -⟩ := List.cons.inj heq
    simp [hc] at hus
  cases hcs with
  | opening =>
    cases hcs' with
    | opening => exact ⟨rfl, List.append_cancel_left heq⟩
    | closing => cases heq
    | word hne hw => exact absurd heq (hparen rfl hne hw)
  | closing =>
    cases hcs' with
    | opening => cases heq
    | closing => exact ⟨rfl, List.append_cancel_left heq⟩
    | word hne hw => exact absurd heq (hparen rfl hne hw)
  | word hne hw =>
    cases hcs' with
    | opening => exact absurd heq.symm (hparen rfl hne hw)
    | closing => exact absurd heq.symm (hparen rfl hne hw)
    | word _ hw' => exact h.append_inj h' hw hw' heq

/-! ## Trees -/

theorem Rule.name_injective {r q : Rule} (h : r.name = q.name) : r = q := by
  have hr := Rule.ofName?_name r
  rw [h, Rule.ofName?_name] at hr
  exact (Option.some.inj hr).symm

/-- Whether the words right below a rule are tokens, whatever they are. -/
def Rule.hasTokens : Rule → Bool
  | numeral | var | letForm => true
  | program | expr | chain _ => false

namespace Tree

/-- The leaf with a text right below a rule. It is a bad word if the rule has no words of its
own and the text is no glyph. -/
def leafBelow (r : Rule) (x : String) (sp : Span) : Tree :=
  if r.hasTokens || isGlyph x then token x sp else bad x sp

theorem dump_leafBelow (r : Rule) (x : String) (sp : Span) : (leafBelow r x sp).dump = x := by
  rw [leafBelow]
  split <;> rfl

theorem bare_leafBelow (r : Rule) (x : String) (sp : Span) :
    (leafBelow r x sp).bare = leafBelow r x .zero := by
  rw [leafBelow, leafBelow]
  split <;> rfl

/-- **What a dump shows**: trees that may stand right below a rule. -/
inductive IsShown : Rule → Tree → Prop
  | node {r q : Rule} {ts : List Tree} (sp : Span) (hne : ts ≠ []) (h : ∀ t ∈ ts, IsShown q t) :
    IsShown r (node q ts sp)
  | leaf {r : Rule} {x : String} (sp : Span) (hx : IsLeafText x.toList) :
    IsShown r (leafBelow r x sp)

theorem toList_dump_node (r : Rule) {ts : List Tree} (sp : Span) (hne : ts ≠ []) :
    (node r ts sp).dump.toList = '(' :: (r.name.toList ++ ((dumpAll ts).toList ++ [')'])) := by
  obtain ⟨t, ts, rfl⟩ := List.exists_cons_of_ne_nil hne
  simp [dump]

theorem toList_dumpAll_cons (t : Tree) (ts : List Tree) :
    (dumpAll (t :: ts)).toList = ' ' :: (t.dump.toList ++ (dumpAll ts).toList) := by
  simp [dumpAll]

/-- What comes after a child in a dump ends a leaf. -/
theorem endsLeaf_dumpAll (ts : List Tree) (rest : List Char) :
    EndsLeaf ((dumpAll ts).toList ++ ')' :: rest) := by
  cases ts with
  | nil =>
    intro c hc
    exact .inr (Option.some.inj hc).symm
  | cons t ts =>
    intro c hc
    rw [toList_dumpAll_cons] at hc
    exact .inl (Option.some.inj hc).symm

theorem all_isLeafChar_name (r : Rule) : r.name.toList.all isLeafChar := by
  rcases r with _ | _ | _ | _ | (_ | _ | _ | _) | _ <;> decide

/-- A dump and what follows it tell which tree below a rule is dumped. -/
def DumpsApart (r : Rule) (t : Tree) : Prop :=
  ∀ u rest rest', IsShown r u → EndsLeaf rest → EndsLeaf rest' →
    t.dump.toList ++ rest = u.dump.toList ++ rest' → t.bare = u.bare ∧ rest = rest'

/-- The dumps of some trees show these, if that of each does. -/
theorem dumpAll_inj {r : Rule} {ts us : List Tree} (hts : ∀ t ∈ ts, DumpsApart r t)
    (hus : ∀ u ∈ us, IsShown r u)
    (h : (dumpAll ts).toList ++ ')' :: rest = (dumpAll us).toList ++ ')' :: rest') :
    ts.map bare = us.map bare ∧ rest = rest' := by
  induction ts generalizing us with
  | nil =>
    cases us with
    | nil => exact ⟨rfl, (List.cons.inj h).2⟩
    | cons u us =>
      rw [toList_dumpAll_cons] at h
      cases h
  | cons t ts ih =>
    cases us with
    | nil =>
      rw [toList_dumpAll_cons] at h
      cases h
    | cons u us =>
      rw [toList_dumpAll_cons, toList_dumpAll_cons, List.cons_append, List.cons_append,
        List.append_assoc, List.append_assoc] at h
      obtain ⟨ht, htail⟩ := hts t List.mem_cons_self u _ _ (hus u List.mem_cons_self)
        (endsLeaf_dumpAll ts rest) (endsLeaf_dumpAll us rest') (List.cons.inj h).2
      obtain ⟨hmap, hrest⟩ := ih (fun t ht => hts t (List.mem_cons_of_mem _ ht))
        (fun u hu => hus u (List.mem_cons_of_mem _ hu)) htail
      exact ⟨by rw [List.map_cons, List.map_cons, ht, hmap], hrest⟩

/-- The parenthesis that opens a node is none of the line's, since a name follows it. -/
theorem opening_ne_leaf (r : Rule) {us : List Char} (hx : IsLeafText cs) (h : EndsLeaf rest) :
    '(' :: (r.name.toList ++ us) ≠ cs ++ rest := by
  intro heq
  cases hx with
  | opening =>
    have hrest : r.name.toList ++ us = rest := (List.cons.inj heq).2
    have hname : r.name.toList ≠ [] := by
      rcases r with _ | _ | _ | _ | (_ | _ | _ | _) | _ <;> decide
    have hall := all_isLeafChar_name r
    obtain ⟨c, ns, hc⟩ := List.exists_cons_of_ne_nil hname
    rw [hc] at hall hrest
    rw [← hrest] at h
    rcases h c rfl with rfl | rfl <;> cases hall
  | closing => cases heq
  | word hne hw =>
    obtain ⟨c, cs, rfl⟩ := List.exists_cons_of_ne_nil hne
    obtain ⟨rfl, -⟩ := List.cons.inj heq
    cases hw

/-- **Trees below a rule are told apart by their dumps.** -/
theorem IsShown.dumpsApart {r : Rule} {t : Tree} (h : IsShown r t) : DumpsApart r t := by
  induction h with
  | @node r q ts sp hne hts ih =>
    intro u rest rest' hu hrest hrest' heq
    cases hu with
    | @node _ q' us sp' hne' hus =>
      rw [toList_dump_node q sp hne, toList_dump_node q' sp' hne', List.cons_append,
        List.cons_append, List.append_assoc, List.append_assoc, List.append_assoc,
        List.append_assoc, List.singleton_append, List.singleton_append] at heq
      obtain ⟨hname, hall⟩ := (endsLeaf_dumpAll ts rest).append_inj (endsLeaf_dumpAll us rest')
        (all_isLeafChar_name q) (all_isLeafChar_name q') (List.cons.inj heq).2
      obtain rfl : q = q' := Rule.name_injective (String.toList_inj.1 hname)
      obtain ⟨hmap, hr⟩ := dumpAll_inj ih hus hall
      exact ⟨by rw [bare, bare, bareAll_eq, bareAll_eq, hmap], hr⟩
    | leaf sp' hx =>
      rw [dump_leafBelow, toList_dump_node q sp hne, List.cons_append, List.append_assoc] at heq
      exact absurd heq (opening_ne_leaf q hx hrest')
  | @leaf r x sp hx =>
    intro u rest rest' hu hrest hrest' heq
    rw [dump_leafBelow] at heq
    cases hu with
    | @node _ q us sp' hne hus =>
      rw [toList_dump_node q sp' hne, List.cons_append, List.append_assoc] at heq
      exact absurd heq.symm (opening_ne_leaf q hx hrest)
    | @leaf _ y sp' hy =>
      rw [dump_leafBelow] at heq
      obtain ⟨hxy, hr⟩ := hx.append_inj hy hrest hrest' heq
      rw [bare_leafBelow, bare_leafBelow, String.toList_inj.1 hxy]
      exact ⟨rfl, hr⟩

end Tree

/-! ## Parse trees -/

namespace Grammar

/-- Whether a symbol may stand below a rule that has words of its own, or below one that has
none. -/
def Symbol.standsBelow (hasTokens : Bool) : Symbol → Bool
  | .terminal (.glyph _) | .nonterminal (.rule _) => true
  | .terminal .unknown => !hasTokens
  | .terminal _ | .nonterminal (.layer .binding) => hasTokens
  | .nonterminal (.layer _) => !hasTokens

theorem standsBelow_of_rule (r : Rule) :
    ∀ s ∈ symbols (body (.rule r)), s.standsBelow r.hasTokens := by
  rcases r with _ | _ | _ | _ | (_ | _ | _ | _) | _ <;> decide

/-- What stands in a layer stands where the layer does. -/
theorem standsBelow_of_layer (l : Layer) (b : Bool) (h : Symbol.standsBelow b (.layer l)) :
    ∀ s ∈ symbols (body (.layer l)), s.standsBelow b := by
  revert h
  rcases l with _ | _ | _ | _ <;> cases b <;> decide

end Grammar

theorem isLeafChar_of_isWordChar {c : Char} (h : isWordChar c) : isLeafChar c := by
  have hg := ofChar?_of_isWordChar h
  have hb := isBlank_of_isWordChar h
  have hne : c ≠ ' ' ∧ c ≠ '(' ∧ c ≠ ')' := by
    refine ⟨?_, ?_, ?_⟩
    all_goals
      rintro rfl
      revert hg hb
      decide
  simp [isLeafChar, hne]

/-- A token of a line has the text of a leaf. -/
theorem Lexeme.Precedes.isLeafText {l : Lexeme} {rest : List Char} (h : l.Precedes rest) :
    IsLeafText l.chars := by
  match l, h with
  | .glyph .opening, _ => exact .opening
  | .glyph .closing, _ => exact .closing
  | .glyph (.op o), _ => exact .word (List.cons_ne_nil _ _) (by cases o <;> decide)
  | .word w, h =>
    exact .word h.1 (List.all_eq_true.2 fun c hc =>
      isLeafChar_of_isWordChar (List.all_eq_true.1 h.2.1 c hc))
  | .signed ds, h =>
    refine .word (List.cons_ne_nil _ _) (List.all_eq_true.2 fun c hc => ?_)
    rcases List.mem_cons.1 hc with rfl | hc
    · decide
    · exact isLeafChar_of_isWordChar (List.all_eq_true.1 (isWordChar_of_isNumeral h.1).2 c hc)

/-- A word is no glyph. -/
theorem isGlyph_word {w : List Char} (hw : w.all isWordChar) :
    Tree.isGlyph (.ofList w) = false := by
  rw [Tree.isGlyph, String.toList_ofList]
  split
  · next c =>
    have hc : isWordChar c := by simpa using hw
    rw [ofChar?_of_isWordChar hc]
    rfl
  · rfl

namespace Grammar.Derivation

variable {line : List Char}

/-- The parse tree of a token is the leaf below its rule. -/
theorem lower_leaf {k : Terminal} {t : Token} {r : Rule} (hk : k.Admits t.lexeme)
    (ht : t.lexeme.Precedes rest) (hr : Symbol.standsBelow r.hasTokens (.terminal k)) :
    (leaf k t).lower line = [Tree.leafBelow r t.text t.span] := by
  rw [lower, Tree.leafBelow]
  cases k with
  | unknown =>
    obtain ⟨l, n⟩ := t
    have hr : r.hasTokens = false := by simpa [Symbol.standsBelow] using hr
    match l, hk, ht with
    | .word w, _, ht =>
      have hw : Tree.isGlyph (Token.text ⟨.word w, n⟩) = false := isGlyph_word ht.2.1
      simp [hr, hw]
  | glyph g =>
    obtain ⟨l, n⟩ := t
    match l, hk with
    | .glyph _, rfl => simp [Tree.isGlyph_glyph, Token.leaf]
  | _ =>
    have hr : r.hasTokens = true := hr
    simp [hr, Token.leaf]

theorem mem_lowerAll {ds : List Derivation} {t : Tree} :
    t ∈ lowerAll line ds ↔ ∃ d ∈ ds, t ∈ d.lower line := by
  induction ds with
  | nil => simp [lowerAll]
  | cons d ds ih => simp [lowerAll, ih]

/-- **A dump shows the parse trees of a derivation.** -/
theorem Valid.isShown {d : Derivation} (hd : d.Valid) {r : Rule}
    (hr : d.symbol.standsBelow r.hasTokens) (hy : ∀ t ∈ d.yield, ∃ rest, t.lexeme.Precedes rest) :
    ∀ t ∈ d.lower line, Tree.IsShown r t := by
  induction hd generalizing r with
  | @leaf k t hk =>
    obtain ⟨rest, ht⟩ := hy t (List.mem_singleton_self t)
    intro u hu
    rw [lower_leaf hk ht hr, List.mem_singleton] at hu
    subst hu
    exact .leaf _ (by rw [Token.text, String.toList_ofList]; exact ht.isLeafText)
  | @node n ds hw hv ih =>
    have hparts : ∀ q : Rule, (∀ s ∈ symbols (body n), s.standsBelow q.hasTokens) →
        ∀ u ∈ lowerAll line ds, Tree.IsShown q u := by
      intro q hq u hu
      obtain ⟨d, hd, hu⟩ := mem_lowerAll.1 hu
      exact ih d hd (hq d.symbol (mem_symbols hw _ (List.mem_map_of_mem hd)))
        (fun t ht => hy t (mem_yieldAll.2 ⟨d, hd, ht⟩)) u hu
    cases n with
    | layer l => exact hparts r (standsBelow_of_layer l _ hr)
    | rule q =>
      intro u hu
      rw [lower, List.mem_singleton] at hu
      subst hu
      exact .node _ (lowerAll_ne_nil line hw hv) (hparts q (standsBelow_of_rule q))

end Grammar.Derivation

/-- The tree of a line is one that a dump shows. -/
theorem isShown_of_ofLine {line : String} {t : Tree} (h : Tree.ofLine line = .ok t) :
    Tree.IsShown .program t := by
  obtain ⟨d, hd, hlow⟩ := exists_derives_of_ofLine h
  have hy : ∀ u ∈ d.yield, ∃ rest, u.lexeme.Precedes rest := by
    intro u hu
    obtain ⟨us, vs, hyield⟩ := List.append_of_mem hu
    obtain ⟨-, after, -, -, -, hprec, -⟩ := (hyield ▸ hd.covers).split
    exact ⟨after, hprec⟩
  have hroot : d.symbol.standsBelow Rule.program.hasTokens := by
    rw [hd.symbol]
    rfl
  exact hd.valid.isShown hroot hy t (hlow ▸ List.mem_singleton_self t)

namespace Source

variable {s s' : Source} {t t' : Tree}

/-- **Sources that have one dump are read the same**: their trees differ in nothing but spans, and
so their programs do not differ. -/
theorem readsSame_of_dump (h : s.tree = .ok t) (h' : s'.tree = .ok t') (hdump : t.dump = t'.dump) :
    t.bare = t'.bare ∧ s.ReadsSame s' := by
  have ht := isShown_of_ofLine (tree_eq_ok_iff.1 h)
  have ht' := isShown_of_ofLine (tree_eq_ok_iff.1 h')
  have hends : EndsLeaf [] := fun c hc => absurd hc (by simp)
  have hbare : t.bare = t'.bare :=
    (ht.dumpsApart t' [] [] ht' hends hends (by rw [hdump])).1
  exact ⟨hbare, readsSame_of_bare h h' hbare.symm⟩

/-- The line `(x)-$` and the same line with blanks. -/
theorem readsSame_of_dump_spaced : ∃ t t', (Source.input "(x)-$").tree = .ok t ∧
    (Source.input " ( x ) -\t$").tree = .ok t' ∧ t.dump = t'.dump ∧ t.bare = t'.bare ∧
    (Source.input "(x)-$").ReadsSame (Source.input " ( x ) -\t$") := by
  obtain ⟨t, t', ht, ht', hdump⟩ : ∃ t t', (Source.input "(x)-$").tree = .ok t ∧
      (Source.input " ( x ) -\t$").tree = .ok t' ∧ t.dump = t'.dump :=
    ⟨_, _, rfl, rfl, by decide +kernel⟩
  exact ⟨t, t', ht, ht', hdump, readsSame_of_dump ht ht' hdump⟩

end Source

end ArithLine

import ArithLine.Proofs.Grammar.Cover
import ArithLine.Proofs.Grammar.Operands
import ArithLine.Proofs.Spans
import Mathlib.Data.List.Chain

/-!
# Adding and removing blanks

* `Spread`: a text with blanks put into it.
* `Covers.exists_spread`: blanks that are not inside a token leave the lexemes as they are.
* `IsOperand.isSeparated`: outside of let forms one of any two adjacent tokens is a glyph.
* `Covers.exists_packed`: such tokens need no blanks between them.
-/

namespace ArithLine

/-! ## Adding blanks -/

/-- **Blanks put into a text** that starts at byte `n`, each at a byte that is `ok`. -/
inductive Spread (ok : ℕ → Prop) : ℕ → List Char → List Char → Prop
  | nil (n : ℕ) : Spread ok n [] []
  | keep {n : ℕ} {c : Char} {cs cs' : List Char} (h : Spread ok (n + c.utf8Size) cs cs') :
    Spread ok n (c :: cs) (c :: cs')
  | blank {n : ℕ} {c : Char} {cs cs' : List Char} (hok : ok n) (hc : isBlank c)
    (h : Spread ok n cs cs') : Spread ok n cs (c :: cs')

namespace Spread

variable {ok : ℕ → Prop} {n : ℕ} {c : Char} {as cs cs' : List Char}

theorem all_isBlank (h : Spread ok n [] cs') : cs'.all isBlank := by
  generalize hcs : [] = cs at h
  induction h with
  | nil n => rfl
  | keep => cases hcs
  | blank _ hc _ ih => simp [hc, ih hcs]

theorem cons_inv (h : Spread ok n (c :: cs) cs') : ∃ bs ds, cs' = bs ++ c :: ds ∧
    bs.all isBlank ∧ (bs = [] ∨ ok n) ∧ Spread ok (n + c.utf8Size) cs ds := by
  generalize has : c :: cs = as at h
  induction h with
  | nil n => cases has
  | keep h =>
    cases has
    exact ⟨[], _, rfl, rfl, .inl rfl, h⟩
  | blank hok hb _ ih =>
    obtain ⟨bs, ds, rfl, hbs, -, h⟩ := ih has
    exact ⟨_ :: bs, ds, rfl, by simp [hb, hbs], .inr hok, h⟩

/-- No blank is put into a text without a byte for it. -/
theorem append_inv (has : as ≠ []) (hok : ∀ k, ok k → ¬ (n < k ∧ k < n + byteLength as))
    (h : Spread ok n (as ++ cs) cs') : ∃ bs ds, cs' = bs ++ (as ++ ds) ∧ bs.all isBlank ∧
      (bs = [] ∨ ok n) ∧ Spread ok (n + byteLength as) cs ds := by
  induction as generalizing n cs' with
  | nil => exact absurd rfl has
  | cons a as ih =>
    obtain ⟨bs, ds, rfl, hbs, hn, hrest⟩ := h.cons_inv
    rw [byteLength_cons] at hok ⊢
    have ha := a.utf8Size_pos
    cases as with
    | nil => exact ⟨bs, ds, rfl, hbs, hn, hrest⟩
    | cons b as =>
      have hb := b.utf8Size_pos
      rw [byteLength_cons] at hok
      obtain ⟨bs', ds, rfl, -, hempty, hrest⟩ := ih (List.cons_ne_nil b as)
        (fun k hk hin => hok k hk (by rw [byteLength_cons] at hin; omega)) hrest
      -- the place after the first character is inside the text
      obtain rfl : bs' = [] := hempty.resolve_right fun h => hok _ h (by omega)
      exact ⟨bs, ds, rfl, hbs, hn, by rwa [← Nat.add_assoc]⟩

theorem head?_any (h : Spread ok n cs cs') (hcs : cs.head?.any isWordChar = false) :
    cs'.head?.any isWordChar = false := by
  cases h with
  | nil => rfl
  | keep => exact hcs
  | blank _ hc _ => simp [isWordChar, hc]

end Spread

/-- **Blanks that are put between tokens leave the lexemes as they are.** -/
theorem Covers.exists_spread {ok : ℕ → Prop} {n : ℕ} {ts : List Token} {cs cs' : List Char}
    (h : Covers n ts cs) (hs : Spread ok n cs cs')
    (hok : ∀ k, ok k → ∀ t ∈ ts, ¬ (t.start < k ∧ k < t.stop)) (m : ℕ) :
    ∃ us, us.map Token.lexeme = ts.map Token.lexeme ∧ Covers m us cs' := by
  induction h generalizing cs' m with
  | done n => exact ⟨[], rfl, by simpa using Covers.blanks hs.all_isBlank (.done _)⟩
  | @blank n c ts cs hc _ ih =>
    obtain ⟨bs, ds, rfl, hbs, -, hs⟩ := hs.cons_inv
    obtain ⟨us, hus, hcov⟩ := ih hs hok (m + byteLength bs + c.utf8Size)
    exact ⟨us, hus, .blanks hbs (.blank hc hcov)⟩
  | @token n l ts cs hl _ ih =>
    obtain ⟨c, r, hchars, -⟩ := hl.chars_eq
    obtain ⟨bs, ds, rfl, hbs, -, hs⟩ := hs.append_inv (by simp [hchars])
      fun k hk => hok k hk _ List.mem_cons_self
    obtain ⟨us, hus, hcov⟩ := ih hs (fun k hk t ht => hok k hk t (List.mem_cons_of_mem _ ht))
      (m + byteLength bs + byteLength l.chars)
    exact ⟨⟨l, _⟩ :: us, by simp [hus], .blanks hbs (.token (hl.of_head fun _ => hs.head?_any) hcov)⟩

/-! ## Removing blanks -/

/-- Whether a lexeme is a parenthesis or an operator. -/
def Lexeme.IsGlyph (l : Lexeme) : Prop := ∃ g, l = glyph g

/-- Whether one of any two adjacent tokens is a glyph. -/
def IsSeparated (ts : List Token) : Prop :=
  ts.IsChain fun t u => t.lexeme.IsGlyph ∨ u.lexeme.IsGlyph

namespace IsSeparated

variable {ts us : List Token} {t : Token}

/-- Whatever stands before a glyph and after it. -/
theorem append_glyph (hts : IsSeparated ts) (g : Glyph) (n : ℕ) (hus : IsSeparated us) :
    IsSeparated (ts ++ ⟨.glyph g, n⟩ :: us) := by
  have hg : (Token.mk (.glyph g) n).lexeme.IsGlyph := ⟨g, rfl⟩
  refine List.isChain_append.2 ⟨hts, ?_, fun t _ u hu => .inr ?_⟩
  · cases us with
    | nil => exact .singleton _
    | cons u us => exact .cons_cons (.inl hg) hus
  · obtain rfl : _ = u := Option.some.inj hu
    exact hg

theorem tail (h : IsSeparated (t :: ts)) : IsSeparated ts := List.IsChain.of_cons h

/-- Only a glyph follows a word. -/
theorem isGlyph_of_head (h : IsSeparated (t :: ts)) (ht : ¬ t.lexeme.IsGlyph) :
    ∀ l ∈ (ts.map Token.lexeme).head?, l.IsGlyph := by
  cases ts with
  | nil => simp
  | cons u ts => simpa [ht] using (List.isChain_cons_cons.1 h).1

end IsSeparated

namespace Covers

variable {n : ℕ} {ts : List Token} {cs : List Char}

/-- No word goes on in a text that starts with a glyph. -/
theorem head?_any_of_isGlyph (h : Covers n ts cs) (hcs : ∀ c ∈ cs, isBlank c = false)
    (hts : ∀ l ∈ (ts.map Token.lexeme).head?, l.IsGlyph) : cs.head?.any isWordChar = false := by
  cases h with
  | done n => rfl
  | @blank n c ts cs hc _ => simp [hcs c (by simp)] at hc
  | token _ _ =>
    obtain ⟨g, rfl⟩ := hts _ rfl
    simpa [Lexeme.chars] using not_isWordChar_char g

/-- **Where glyphs separate the tokens, no blank has to.** -/
theorem exists_packed (h : Covers n ts cs) (hts : IsSeparated ts) (m : ℕ) :
    ∃ us, us.map Token.lexeme = ts.map Token.lexeme ∧ Covers m us (cs.filter (!isBlank ·)) := by
  induction h generalizing m with
  | done n => exact ⟨[], rfl, .done m⟩
  | @blank n c ts cs hc _ ih =>
    rw [List.filter_cons_of_neg (by simp [hc])]
    exact ih hts m
  | @token n l ts cs hl hrest ih =>
    obtain ⟨us, hus, hcov⟩ := ih hts.tail (m + byteLength l.chars)
    have hprec : l.Precedes (cs.filter (!isBlank ·)) := by
      refine hl.of_head fun hglyph _ => hcov.head?_any_of_isGlyph (by simp) ?_
      rw [hus]
      exact hts.isGlyph_of_head fun ⟨g, hg⟩ => hglyph g hg
    rw [List.filter_append, List.filter_eq_self.2 fun c hc => by simp [hl.isBlank_eq_false c hc]]
    exact ⟨⟨l, m⟩ :: us, by simp [hus], .token hprec hcov⟩

end Covers

namespace Grammar.Derivation

variable {line : List Char}

/-- The nodes of a rule's parse tree: itself, and those below it. -/
theorem nodesAll_lower_rule (line : List Char) (r : Rule) (ds : List Derivation) :
    Tree.nodesAll ((Derivation.node (.rule r) ds).lower line) =
      .node r (lowerAll line ds) (extent line r ds.length (lowerAll line ds)) ::
        Tree.nodesAll (lowerAll line ds) := by
  rw [lower, Tree.nodesAll, Tree.nodes, Tree.nodesAll, List.append_nil]

/-- The operators of a chain separate its operands. -/
theorem isSeparated_links {o : Op} {k : ℕ} {ds : List Derivation}
    (hds : List.Forall₂ Of (.layer (operand o) :: linkWord o k) ds)
    (h : ∀ d ∈ ds, Of (.layer (operand o)) d → IsSeparated d.yield) :
    IsSeparated (yieldAll ds) := by
  induction k generalizing ds with
  | zero =>
    obtain ⟨d, hd, rfl⟩ := one_part_iff.1 hds
    rw [yieldAll_singleton]
    exact h d (by simp) hd
  | succ k ih =>
    obtain ⟨d, es, hd, hes, rfl⟩ := List.forall₂_cons_left_iff.1 hds
    obtain ⟨n, e, es, he, hlinks, rfl⟩ := links_succ_iff.1 hes
    have hrest := ih (.cons he hlinks) fun e he =>
      h e (List.mem_cons_of_mem _ (List.mem_cons_of_mem _ he))
    exact (h d (by simp) hd).append_glyph _ n hrest

/-- **Outside of let forms the tokens of an operand are separated.** -/
theorem IsOperand.isSeparated {s : Symbol} {d : Derivation} (h : IsOperand s d)
    (hlet : ∀ u ∈ Tree.nodesAll (d.lower line), u.rule? ≠ some .letForm) :
    IsSeparated d.yield := by
  induction h with
  | unknown t => exact List.IsChain.singleton t
  | numeral => exact List.IsChain.singleton _
  | var => exact List.IsChain.singleton _
  | letForm ds =>
    rw [nodesAll_lower_rule] at hlet
    exact absurd rfl (hlet _ List.mem_cons_self)
  | @chain o k ds hds h ih =>
    rw [nodesAll_lower_rule] at hlet
    exact isSeparated_links hds fun d hd hof => ih d hd hof fun u hu =>
      hlet u (List.mem_cons_of_mem _ (mem_nodesAll_lowerAll.2 ⟨d, hd, hu⟩))
  | @layer l s d hw h ih =>
    rw [yield, yieldAll_singleton]
    rw [lower, lowerAll_singleton] at hlet
    exact ih hlet
  | @group m n d h ih =>
    have hd := ih fun u hu => hlet u (mem_nodesAll_lowerAll.2 ⟨d, by simp, hu⟩)
    have hopening : IsSeparated [] := .nil
    exact hopening.append_glyph .opening m (hd.append_glyph .closing n .nil)
  | @expr d h ih =>
    rw [nodesAll_lower_rule, lowerAll_singleton] at hlet
    rw [yield, yieldAll_singleton]
    exact ih fun u hu => hlet u (List.mem_cons_of_mem _ hu)

end Grammar.Derivation

end ArithLine

import ArithLine.Proofs.Grammar.Cover
import ArithLine.Proofs.Grammar.Invariant
import ArithLine.Proofs.Grammar.Occurrence

/-!
# What has been read can be completed

Wherever the reader is, some more lexemes make what it has read a program.

* `Completes s r ts ls`: a derivation of `s` after the tokens `ts` and before the lexemes `ls`
  makes one of `r`. The lexemes may stand anywhere, so their text is chosen last.
* `LevelReads.completes`, `StackReads.completable`: what is open is completed from the inside
  out, an operand to an expression and the expression to a program.
* `Unfinished.Reads.finishable`: so all that has been read is completed.
* `Finishable.exists_derives`: the text of these lexemes, with a blank after each of them,
  completes the line.
-/

namespace ArithLine

open Grammar Derivation

namespace Grammar.Derivation

/-! ## Lexemes after a derivation -/

/-- Whether some lexemes are those of parts of a rule, wherever they stand. -/
def Spelled (w : List Symbol) (ls : List Lexeme) : Prop :=
  ∀ us : List Token, us.map Token.lexeme = ls → ∃ ds, List.Forall₂ Of w ds ∧ yieldAll ds = us

/-- Whether a derivation of `s` after the tokens `ts` and before the lexemes `ls` makes one
of `r`. -/
def Completes (s r : Symbol) (ts : List Token) (ls : List Lexeme) : Prop :=
  ∀ (e : Derivation) (us : List Token), Of s e → us.map Token.lexeme = ls →
    ∃ d, Of r d ∧ d.yield = ts ++ (e.yield ++ us) ∧ e.Occurs d

variable {s r q : Symbol} {w u : List Symbol} {ts us : List Token} {ls ms : List Lexeme}
  {n : Nonterminal} {ds : List Derivation}

namespace Spelled

theorem nil : Spelled [] [] := by
  intro us hus
  obtain rfl := List.map_eq_nil_iff.1 hus
  exact ⟨[], .nil, rfl⟩

theorem append (h : Spelled [s] ls) (hu : Spelled u ms) : Spelled (s :: u) (ls ++ ms) := by
  intro us hus
  obtain ⟨us₁, us₂, rfl, h₁, h₂⟩ := List.map_eq_append_iff.1 hus
  obtain ⟨es, hes, rfl⟩ := h us₁ h₁
  obtain ⟨fs, hfs, rfl⟩ := hu us₂ h₂
  exact ⟨es ++ fs, List.rel_append hes hfs, yieldAll_append es fs⟩

theorem token {k : Terminal} {l : Lexeme} (h : k.Admits l) : Spelled [.terminal k] [l] := by
  intro us hus
  obtain ⟨t, rfl, rfl⟩ := List.map_eq_singleton_iff.1 hus
  exact ⟨[leaf k t], .cons (of_terminal_iff.2 ⟨t, h, rfl⟩) .nil, by simp [yield]⟩

theorem glyph (g : Glyph) (hu : Spelled u ms) : Spelled (.glyph g :: u) (.glyph g :: ms) :=
  append (token (k := .glyph g) (l := .glyph g) rfl) hu

/-- The parts of a rule spell the rule. -/
theorem node (hw : w ∈ (body n).matches') (h : Spelled w ls) : Spelled [.nonterminal n] ls := by
  intro us hus
  obtain ⟨ds, hds, rfl⟩ := h us hus
  have hd : Of (.nonterminal n) (.node n ds) := of_nonterminal_iff.2 ⟨w, hw, ds, hds, rfl⟩
  exact ⟨[.node n ds], .cons hd .nil, by simp [yield]⟩

end Spelled

namespace Completes

theorem trans (h : Completes s q ts ls) (h' : Completes q r us ms) :
    Completes s r (us ++ ts) (ls ++ ms) := by
  intro e vs he hvs
  obtain ⟨vs₁, vs₂, rfl, h₁, h₂⟩ := List.map_eq_append_iff.1 hvs
  obtain ⟨d, hd, hyield, hocc⟩ := h e vs₁ he h₁
  obtain ⟨d', hd', hyield', hocc'⟩ := h' d vs₂ hd h₂
  exact ⟨d', hd', by simp [hyield', hyield], hocc.trans hocc'⟩

/-- A part of a rule is completed by the parts before it and those after it. -/
theorem node (hw : w ++ s :: u ∈ (body n).matches') (hds : List.Forall₂ Of w ds)
    (hu : Spelled u ls) : Completes s (.nonterminal n) (yieldAll ds) ls := by
  intro e us he hus
  obtain ⟨es, hes, rfl⟩ := hu us hus
  have hparts : List.Forall₂ Of (w ++ s :: u) (ds ++ e :: es) := List.rel_append hds (.cons he hes)
  have hd : Of (.nonterminal n) (.node n (ds ++ e :: es)) :=
    of_nonterminal_iff.2 ⟨_, hw, _, hparts, rfl⟩
  exact ⟨.node n (ds ++ e :: es), hd, by simp [yield, yieldAll], .part (by simp) .here⟩

/-- The only part of a rule is completed by nothing. -/
theorem one (hw : [s] ∈ (body n).matches') : Completes s (.nonterminal n) [] [] :=
  node (w := []) hw .nil .nil

/-- What stands for a symbol may be any text of it. -/
theorem spelled (h : Completes s r ts ls) (hs : Spelled [s] ms) (hvs : us.map Token.lexeme = ms ++ ls) :
    ∃ d e, Of r d ∧ d.yield = ts ++ us ∧ Of s e ∧ e.Occurs d ∧ ∃ vs, us = e.yield ++ vs := by
  obtain ⟨us₁, us₂, rfl, h₁, h₂⟩ := List.map_eq_append_iff.1 hvs
  obtain ⟨es, hes, rfl⟩ := hs us₁ h₁
  obtain ⟨e, he, rfl⟩ := one_part_iff.1 hes
  obtain ⟨d, hd, hyield, hocc⟩ := h e us₂ he h₂
  rw [yieldAll_singleton]
  exact ⟨d, e, hd, hyield, he, hocc, us₂, rfl⟩

end Completes

/-! ## The rules -/

theorem completes_program : Completes (.rule .expr) (.rule .program) [] [] := .one (mem_rule.2 rfl)

theorem completes_expr : Completes (.layer .sum) (.rule .expr) [] [] := .one (mem_layer.2 rfl)

theorem completes_sum : Completes (.layer .product) (.layer .sum) [] [] :=
  .one (mem_body_sum.2 (.inr rfl))

theorem completes_product : Completes (.layer .atom) (.layer .product) [] [] :=
  .one (mem_body_product.2 (.inr rfl))

theorem completes_letForm : Completes (.rule .letForm) (.layer .atom) [] [] :=
  .one (mem_body_atom.2 (.inl rfl))

theorem completes_numeral : Completes (.terminal .numeral) (.layer .atom) [] [] := by
  have hnumeral : Completes (.terminal .numeral) (.rule .numeral) [] [] := .one (mem_token.2 rfl)
  exact hnumeral.trans (.one (mem_body_atom.2 (.inr (.inl rfl))))

theorem completes_var : Completes (.terminal .name) (.layer .atom) [] [] := by
  have hvar : Completes (.terminal .name) (.rule .var) [] [] := .one (mem_token.2 rfl)
  exact hvar.trans (.one (mem_body_atom.2 (.inr (.inr (.inl rfl)))))

theorem completes_unknown : Completes (.terminal .unknown) (.layer .atom) [] [] :=
  .one (mem_body_atom.2 (.inr (.inr (.inr (.inr rfl)))))

/-- The name that stands for any operand that is missing. -/
def placeholder : Lexeme := .word ['x']

theorem spelled_name : Spelled [.terminal .name] [placeholder] :=
  .token (show Word.isName ['x'] = true by decide)

theorem spelled_atom : Spelled [.layer .atom] [placeholder] :=
  .node (mem_body_atom.2 (.inr (.inr (.inl rfl)))) (.node (mem_token.2 rfl) spelled_name)

theorem spelled_expr : Spelled [.rule .expr] [placeholder] :=
  .node (mem_layer.2 rfl) (.node (mem_body_sum.2 (.inr rfl))
    (.node (mem_body_product.2 (.inr rfl)) spelled_atom))

/-- A binding of a let form. -/
def bindingLexemes : List Lexeme :=
  [.glyph .opening, placeholder, placeholder, .glyph .closing]

theorem spelled_binding : Spelled [.layer .binding] bindingLexemes :=
  .node (mem_body_binding.2 rfl) (.glyph _ (.append spelled_name (.append spelled_expr
    (.glyph _ .nil))))

/-- What comes after the bindings of a let form. -/
def bodyLexemes : List Lexeme := [.glyph .closing, placeholder, .glyph .closing]

theorem spelled_body : Spelled [.glyph .closing, .rule .expr, .glyph .closing] bodyLexemes :=
  .glyph _ (.append spelled_expr (.glyph _ .nil))

theorem of_glyph (g : Glyph) (n : ℕ) : Of (.glyph g) (leaf (.glyph g) ⟨.glyph g, n⟩) :=
  of_glyph_iff.2 ⟨n, rfl⟩

theorem completes_group (n : ℕ) :
    Completes (.rule .expr) (.layer .atom) [⟨.glyph .opening, n⟩] [.glyph .closing] := by
  have hopening := of_glyph .opening n
  exact .node (w := [.glyph .opening]) (mem_body_atom.2 (.inr (.inr (.inr (.inl rfl)))))
    (.cons hopening .nil) (.glyph _ .nil)

theorem completes_binding {w : List Char} (hw : Word.isName w) (m n : ℕ) :
    Completes (.rule .expr) (.layer .binding) [⟨.glyph .opening, m⟩, ⟨.word w, n⟩]
      [.glyph .closing] := by
  have hopening := of_glyph .opening m
  have hname := of_name_iff.2 ⟨w, n, hw, rfl⟩
  exact .node (w := [.glyph .opening, .terminal .name]) (mem_body_binding.2 rfl)
    (.cons hopening (.cons hname .nil)) (.glyph _ .nil)

theorem completes_name (n : ℕ) :
    Completes (.terminal .name) (.layer .binding) [⟨.glyph .opening, n⟩]
      [placeholder, .glyph .closing] := by
  have hopening := of_glyph .opening n
  exact .node (w := [.glyph .opening]) (mem_body_binding.2 rfl) (.cons hopening .nil)
    (.append spelled_expr (.glyph _ .nil))

/-- The word that opens a let form, after its parenthesis. -/
theorem completes_reserved (n : ℕ) :
    Completes (.terminal .reserved) (.rule .letForm) [⟨.glyph .opening, n⟩]
      (.glyph .opening :: (bindingLexemes ++ bodyLexemes)) := by
  have hopening := of_glyph .opening n
  exact .node (w := [.glyph .opening]) (mem_body_letForm.2 ⟨0, rfl⟩) (.cons hopening .nil)
    (.glyph _ (.append spelled_binding spelled_body))

section LetForm

variable {bs : List Derivation} (a b c : ℕ) (hbs : ∀ d ∈ bs, Of (.layer .binding) d)

include hbs

theorem letHead_bindings : List.Forall₂ Of ([.glyph .opening, .terminal .reserved, .glyph .opening] ++
    List.replicate bs.length (.layer .binding)) (letHead a b c ++ bs) :=
  List.rel_append (letHead_parts_iff.2 ⟨a, b, c, rfl⟩) (parts_replicate_iff.2 ⟨rfl, hbs⟩)

/-- One more binding, and the body after it. -/
theorem completes_letForm_binding : Completes (.layer .binding) (.rule .letForm)
    (yieldAll (letHead a b c ++ bs)) bodyLexemes := by
  refine .node ?_ (letHead_bindings a b c hbs) spelled_body
  refine mem_body_letForm.2 ⟨bs.length, ?_⟩
  simp [letWord, List.replicate_succ']

/-- The body, after some bindings. -/
theorem completes_letForm_body (hne : bs ≠ []) (n : ℕ) : Completes (.rule .expr) (.rule .letForm)
    (yieldAll (letHead a b c ++ bs) ++ [⟨.glyph .closing, n⟩]) [.glyph .closing] := by
  have hclosing : List.Forall₂ Of [.glyph .closing] [leaf (.glyph .closing) ⟨.glyph .closing, n⟩] :=
    .cons (of_glyph .closing n) .nil
  have hparts := List.rel_append (letHead_bindings a b c hbs) hclosing
  obtain ⟨k, hk⟩ := Nat.exists_eq_succ_of_ne_zero (List.length_pos_iff.2 hne).ne'
  have hbody := Completes.node (s := .rule .expr) (n := .rule .letForm) (u := [.glyph .closing])
    (mem_body_letForm.2 ⟨k, by simp [letWord, hk]⟩) hparts (.glyph _ .nil)
  simpa [yieldAll, yield] using hbody

end LetForm

end Grammar.Derivation

/-! ## What is open -/

section Open

variable {line : List Char} {ts us : List Token} {l : Level} {ds : List Derivation}

/-- An operand is the last one of the open chain of its layer, or the only one of the layer. -/
theorem ChainReads.completes {tight : Bool} {inner outer : Layer} {c : Option OpenChain}
    (h : ChainReads line tight c ds) (hinner : ∀ o : Op, o.isTight = tight → operand o = inner)
    (houter : ∀ w, w ∈ (body (.layer outer)).matches' ↔
      (∃ o, o.isTight = tight ∧ w = [.rule (.chain o)]) ∨ w = [.layer inner]) :
    Completes (.layer inner) (.layer outer) (yieldAll ds) [] := by
  cases c with
  | none =>
    obtain rfl : ds = [] := h
    exact .one ((houter _).2 (.inr rfl))
  | some c =>
    obtain ⟨ho, hparts, -, hpos⟩ := h
    have hlast : Completes (.layer inner) (.rule (.chain c.op)) (yieldAll ds) [] := by
      refine .node ?_ hparts .nil
      obtain ⟨k, hk⟩ := Nat.exists_eq_succ_of_ne_zero hpos.ne'
      rw [← hinner c.op ho, openWord_concat, hk]
      exact mem_body_chain.2 ⟨k, rfl⟩
    exact hlast.trans (.one ((houter _).2 (.inl ⟨c.op, ho, rfl⟩)))

theorem ChainReads.completes_sum {c : Option OpenChain} (h : ChainReads line false c ds) :
    Completes (.layer .product) (.layer .sum) (yieldAll ds) [] :=
  h.completes (fun o ho => by simp [operand, ho]) fun _ => mem_body_sum

theorem ChainReads.completes_product {c : Option OpenChain} (h : ChainReads line true c ds) :
    Completes (.layer .atom) (.layer .product) (yieldAll ds) [] :=
  h.completes (fun o ho => by simp [operand, ho]) fun _ => mem_body_product

/-- An operand closes what is open of an expression. -/
theorem LevelReads.completes (h : LevelReads line l ts) :
    Completes (.layer .atom) (.rule .expr) ts [] := by
  obtain ⟨ss, ps, hss, hps, rfl⟩ := h
  have hsum := hss.completes_sum.trans completes_expr
  exact hps.completes_product.trans hsum

/-- Where no product is open, a whole product may stand. -/
theorem LevelReads.completes_product (h : LevelReads line l ts) (hl : l.product = none) :
    Completes (.layer .product) (.rule .expr) ts [] := by
  obtain ⟨ss, ps, hss, hps, rfl⟩ := h
  rw [hl] at hps
  obtain rfl : ps = [] := hps
  have hsum := hss.completes_sum.trans completes_expr
  simpa [yieldAll] using hsum

/-- Where nothing is open, nothing has been read. -/
theorem LevelReads.eq_nil (h : LevelReads line l ts) (hl : l.isFresh) : ts = [] := by
  obtain ⟨ss, ps, hss, hps, rfl⟩ := h
  simp only [Level.isFresh, Bool.and_eq_true, Option.isNone_iff_eq_none] at hl
  rw [hl.1] at hss
  rw [hl.2] at hps
  obtain rfl : ss = [] := hss
  obtain rfl : ps = [] := hps
  rfl

end Open

/-! ## Completions -/

/-- Whether a lexeme may stand wherever a blank follows it. -/
def Lexeme.IsFree (l : Lexeme) : Prop := ∀ cs : List Char, l.Precedes (' ' :: cs)

/-- Whether some lexemes may stand anywhere, each with a blank after it. -/
def Free (ls : List Lexeme) : Prop := ∀ l ∈ ls, l.IsFree

theorem isFree_word {w : List Char} (hw : w ≠ []) (hall : w.all isWordChar) :
    (Lexeme.word w).IsFree := fun _ => ⟨hw, hall, rfl⟩

theorem isFree_placeholder : placeholder.IsFree := isFree_word (by simp) (by decide)

theorem isFree_glyph (g : Glyph) : (Lexeme.glyph g).IsFree := fun _ => trivial

theorem free_binding : Free bindingLexemes := by
  simp [Free, bindingLexemes, isFree_glyph, isFree_placeholder]

theorem free_body : Free bodyLexemes := by
  simp [Free, bodyLexemes, isFree_glyph, isFree_placeholder]

/-- Whether a derivation of a symbol, after some tokens and before some lexemes, makes a
program. -/
def Completable (s : Symbol) (ts : List Token) : Prop :=
  ∃ ls, Free ls ∧ Completes s (.rule .program) ts ls

namespace Completable

variable {line : List Char} {s q : Symbol} {ts us : List Token} {ls : List Lexeme} {f : OpenLet}
  {bs : List Derivation} {l : Level}

theorem of_completes (h : Completable q ts) (hs : Completes s q us ls) (hls : Free ls) :
    Completable s (ts ++ us) := by
  obtain ⟨ms, hms, hq⟩ := h
  exact ⟨ls ++ ms, List.forall_mem_append.2 ⟨hls, hms⟩, hs.trans hq⟩

theorem atom (h : Completable (.rule .expr) ts) (hl : LevelReads line l us) :
    Completable (.layer .atom) (ts ++ us) := h.of_completes hl.completes (by simp [Free])

theorem letForm (h : Completable (.layer .atom) ts) : Completable (.rule .letForm) ts := by
  simpa using h.of_completes completes_letForm (by simp [Free])

/-- A binding, where a let form is open. -/
theorem binding (h : Completable (.rule .expr) ts) (hf : f.Reads line bs us) :
    Completable (.layer .binding) (ts ++ us) := by
  obtain ⟨hbs, us, a, b, c, hl, -, rfl⟩ := hf
  have hform := (h.atom hl).letForm
  have hbinding := hform.of_completes (completes_letForm_binding a b c hbs) free_body
  rwa [List.append_assoc] at hbinding

/-- The body of a let form, where a let form with bindings is open. -/
theorem body (h : Completable (.rule .expr) ts) (hf : f.Reads line bs us) (hne : bs ≠ [])
    (n : ℕ) : Completable (.rule .expr) (ts ++ us ++ [⟨.glyph .closing, n⟩]) := by
  obtain ⟨hbs, us, a, b, c, hl, -, rfl⟩ := hf
  have hform := (h.atom hl).letForm
  have hbody := hform.of_completes (completes_letForm_body a b c hbs hne n)
    (by simp [Free, isFree_glyph])
  simpa using hbody

end Completable

/-- **The forms that are open can be closed** around any expression. -/
theorem StackReads.completable {line : List Char} {s : List Frame} {ts : List Token}
    (h : StackReads line s ts) : Completable (.rule .expr) ts := by
  have hclosing : Free [.glyph .closing] := by simp [Free, isFree_glyph]
  induction h with
  | nil => exact ⟨[], by simp [Free], completes_program⟩
  | group n _ hl ih => exact (ih.atom hl).of_completes (completes_group n) hclosing
  | binding m n _ hf hw ih =>
    exact (ih.binding hf).of_completes (completes_binding hw m n) hclosing
  | body n _ hf hne ih => exact ih.body hf hne n

/-- The word that opens a let form, after a parenthesis that may stand for a group. -/
theorem StackReads.completable_reserved {line : List Char} {s : List Frame} {l : Level} {o : Tree}
    {ts : List Token} (h : StackReads line (.group l o :: s) ts) :
    Completable (.terminal .reserved) ts := by
  cases h with
  | group n hs hl =>
    have hlexemes : Free (.glyph .opening :: (bindingLexemes ++ bodyLexemes)) :=
      List.forall_mem_cons.2 ⟨isFree_glyph _, List.forall_mem_append.2 ⟨free_binding, free_body⟩⟩
    exact (hs.completable.atom hl).letForm.of_completes (completes_reserved n) hlexemes

/-- Whether some lexemes after some tokens make a program. -/
def Finishable (ts : List Token) : Prop :=
  ∃ ls, Free ls ∧ ∀ us : List Token, us.map Token.lexeme = ls →
    ∃ d, Of (.rule .program) d ∧ d.yield = ts ++ us

theorem Completable.finishable {s : Symbol} {ts : List Token} {ls : List Lexeme}
    (h : Completable s ts) (hs : Spelled [s] ls) (hls : Free ls) : Finishable ts := by
  obtain ⟨ms, hms, hcomp⟩ := h
  refine ⟨ls ++ ms, List.forall_mem_append.2 ⟨hls, hms⟩, fun us hus => ?_⟩
  obtain ⟨d, -, hd, hyield, -⟩ := hcomp.spelled hs hus
  exact ⟨d, hd, hyield⟩

/-- What has been read is completed after any derivation. -/
theorem Completable.finishable_yield {s : Symbol} {ts : List Token} {e : Derivation}
    (h : Completable s ts) (he : Of s e) : Finishable (ts ++ e.yield) := by
  obtain ⟨ls, hls, hcomp⟩ := h
  refine ⟨ls, hls, fun us hus => ?_⟩
  obtain ⟨d, hd, hyield, -⟩ := hcomp e us he hus
  exact ⟨d, hd, by rw [hyield, List.append_assoc]⟩

/-- **Whatever has been read can be completed.** -/
theorem Unfinished.Reads.finishable {line : List Char} {v : Unfinished} {vs : List Token}
    (h : v.Reads line vs) : Finishable vs := by
  have hplaceholder : Free [placeholder] := by simp [Free, isFree_placeholder]
  cases h with
  | opened hs => exact hs.completable.finishable spelled_expr hplaceholder
  | operand hs hl => exact (hs.completable.atom hl).finishable spelled_atom hplaceholder
  | ended hs hl ha => exact (hs.completable.atom hl).finishable_yield ha
  | reserved n hs =>
    -- the reserved word may still be an operand
    have hword : Of (.terminal .unknown) (leaf .unknown ⟨.word Word.reserved, n⟩) :=
      of_unknown_iff.2 ⟨Word.reserved, n, by decide, rfl⟩
    have hatom := hs.completable.atom (levelReads_fresh : LevelReads line {} [])
    have hunknown := hatom.of_completes completes_unknown (by simp [Free])
    simpa [yield] using hunknown.finishable_yield hword
  | bindings hs hf hb => exact (hs.completable.binding hf).finishable spelled_binding free_binding
  | name m hs hf =>
    have hname := (hs.completable.binding hf).of_completes (completes_name m)
      (by simp [Free, isFree_glyph, isFree_placeholder])
    exact hname.finishable spelled_name hplaceholder

/-! ## The text of a completion -/

/-- The text of some lexemes with a blank after each. -/
def spell (ls : List Lexeme) : List Char := ls.flatMap fun l => l.chars ++ [' ']

/-- The text of some lexemes has these lexemes, the first one at its start. -/
theorem covers_spell {ls : List Lexeme} (h : Free ls) (n : ℕ) : ∃ us : List Token,
    us.map Token.lexeme = ls ∧ us.head? = ls.head?.map (⟨·, n⟩) ∧ Covers n us (spell ls) := by
  induction ls generalizing n with
  | nil => exact ⟨[], rfl, rfl, .done n⟩
  | cons l ls ih =>
    obtain ⟨hl, hls⟩ := List.forall_mem_cons.1 h
    obtain ⟨us, hus, -, hcov⟩ := ih hls (n + byteLength l.chars + ' '.utf8Size)
    refine ⟨⟨l, n⟩ :: us, by simp [hus], rfl, ?_⟩
    have hblank : Covers (n + byteLength l.chars) us (' ' :: spell ls) := .blank rfl hcov
    simpa [spell] using Covers.token (hl _) hblank

/-- **Tokens that can be completed start a line that has a derivation.** -/
theorem Finishable.exists_derives {ts : List Token} {cs : List Char} (h : Finishable ts)
    (hc : Covers 0 ts cs) :
    ∃ ds d, Derives (.ofList (cs ++ ' ' :: ds)) d ∧ ∀ t ∈ ts, t ∈ d.yield := by
  obtain ⟨ls, hls, hfinish⟩ := h
  obtain ⟨us, hus, -, hcov⟩ := covers_spell hls (0 + byteLength cs + ' '.utf8Size)
  obtain ⟨d, hd, hyield⟩ := hfinish us hus
  have hblank : Covers (0 + byteLength cs) us (' ' :: spell ls) := .blank rfl hcov
  have hline := hc.append hblank (not_runsInto_blank cs rfl _)
  refine ⟨spell ls, d, ⟨hd.symbol, hd.valid, ?_⟩, fun t ht => ?_⟩
  · rwa [String.toList_ofList, hyield]
  · rw [hyield]
    exact List.mem_append_left us ht

/-- **Where a derivation of a symbol can be completed, it stands in some line.** -/
theorem Completable.exists_occurs {s : Symbol} {ts : List Token} {cs : List Char} {l : Lexeme}
    {ls : List Lexeme} (h : Completable s ts) (hs : Spelled [s] (l :: ls)) (hls : Free (l :: ls))
    (hc : Covers 0 ts cs) (hr : ∀ ds, ¬ RunsInto cs (l.chars ++ ds)) :
    ∃ ds d e, Derives (.ofList (cs ++ ds)) d ∧ e.Occurs d ∧ Of s e ∧
      e.yield.head?.map Token.start = some (byteLength cs) := by
  obtain ⟨ms, hms, hcomp⟩ := h
  obtain ⟨us, hus, hhead, hcov⟩ := covers_spell (List.forall_mem_append.2 ⟨hls, hms⟩)
    (0 + byteLength cs)
  obtain ⟨d, e, hd, hyield, he, hocc, vs, hvs⟩ := hcomp.spelled hs hus
  have hline := hc.append hcov (by simpa [spell] using hr _)
  refine ⟨spell (l :: ls ++ ms), d, e, ⟨hd.symbol, hd.valid, ?_⟩, hocc, he, ?_⟩
  · rwa [String.toList_ofList, hyield]
  · obtain ⟨t, ts, ht⟩ := List.exists_cons_of_ne_nil he.valid.yield_ne_nil
    rw [hvs, ht] at hhead
    rw [ht]
    simpa using congrArg (Option.map Token.start) hhead

end ArithLine

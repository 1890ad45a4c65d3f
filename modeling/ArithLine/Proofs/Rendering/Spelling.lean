import ArithLine.Proofs.Rendering.Clean

/-!
# From a derivation to its text

The tokens of a derivation about which nothing is reported spell a text of what it converts
to (`IsOperand.hasText`).

* `Spells`: tokens that have a text of something wherever they stand. Blanks before them
  belong to no text, so texts are put together with these blanks between them.
* `Allowed`: what the text of a symbol may be a text of. A layer has the text of its part,
  since it allows what that part does (`allowed_layer`).
-/

namespace ArithLine

open Grammar Derivation

/-- Whether some tokens, wherever they stand, have a text of something between the blanks
before them and what follows them. -/
def Spells (ts : List Token) (s : Subject) : Prop :=
  ∀ n us cs, Covers n (ts ++ us) cs → ∃ bs body rest k,
    cs = bs ++ (body ++ rest) ∧ bs.all isBlank ∧ Renders s body ∧ Covers k us rest

namespace Spells

variable {ts us : List Token} {s s' : Subject} {e : Expr} {o : Op} {enclosed : Bool}

theorem imp (h : Spells ts s) (hs : ∀ cs, Renders s cs → Renders s' cs) : Spells ts s' := by
  intro n us cs hcov
  obtain ⟨bs, body, rest, k, hcs, hbs, hbody, hus⟩ := h n us cs hcov
  exact ⟨bs, body, rest, k, hcs, hbs, hs body hbody, hus⟩

theorem token {t : Token} (h : Renders s t.lexeme.chars) : Spells [t] s := by
  intro n us cs hcov
  obtain ⟨bs, rest, hcs, hbs, -, hus⟩ := hcov.exists_first
  exact ⟨bs, _, rest, _, hcs, hbs, h, hus⟩

theorem group (m n : ℕ) (h : Spells ts (.expr e enclosed)) :
    Spells (⟨.glyph .opening, m⟩ :: (ts ++ [⟨.glyph .closing, n⟩])) (.expr e true) := by
  intro k us cs hcov
  rw [List.cons_append, List.append_assoc] at hcov
  obtain ⟨bs, rest, rfl, hbs, -, hrest⟩ := hcov.exists_first
  obtain ⟨bs', body, rest, j, rfl, hbs', hbody, hrest⟩ := h _ _ _ hrest
  obtain ⟨bs'', rest, rfl, hbs'', -, hus⟩ := hrest.exists_first
  exact ⟨bs, _, rest, _, by simp [Lexeme.chars, Glyph.char], hbs, .group hbs' hbody hbs'', hus⟩

theorem more {es : List Expr} (n : ℕ) (parens : e.needsParens o → enclosed)
    (h : Spells ts (.expr e enclosed)) (hr : Spells us (.operands o es)) :
    Spells (ts ++ ⟨.glyph (.op o), n⟩ :: us) (.operands o (e :: es)) := by
  intro k vs cs hcov
  rw [List.append_assoc, List.cons_append] at hcov
  obtain ⟨bs, body, rest, j, rfl, hbs, hbody, hrest⟩ := h _ _ _ hcov
  obtain ⟨bs', rest, rfl, hbs', -, hrest⟩ := hrest.exists_first
  obtain ⟨bs'', body', rest, i, rfl, hbs'', hbody', hvs⟩ := hr _ _ _ hrest
  exact ⟨bs, _, rest, i, by simp [Lexeme.chars, Glyph.char], hbs,
    .more parens hbody hbs' hbs'' hbody', hvs⟩

end Spells

namespace Grammar.Derivation

variable {line : List Char} {d : Derivation} {o : Op}

/-- A derivation of an operand about which nothing is reported converts to an expression, and
its tokens spell a text of that. -/
def HasText (line : List Char) (d : Derivation) (allows : Expr → Bool → Prop) : Prop :=
  IsClean line [d] → ∃ e b, allows e b ∧ Converts line [d] [e] ∧ Spells d.yield (.expr e b)

/-- Which expressions what stands for a symbol may convert to, in parentheses or not. -/
def Allowed : Symbol → Expr → Bool → Prop
  | .nonterminal (.layer l) => l.Allows
  | .nonterminal (.rule (.chain o)) => fun e _ => ∃ es, e = .chain o es
  | .nonterminal (.rule .expr) => fun _ _ => True
  | _ => Layer.atom.Allows

theorem hasText_numeral {t : Token} (ht : Terminal.numeral.Admits t.lexeme) :
    HasText line (node (.rule .numeral) [leaf .numeral t]) Layer.atom.Allows := by
  intro hclean
  have hn := (Numeral.toInt_ofInt_of_isWord ((isClean_numeral ht).1 hclean)).symm
  exact ⟨.const _, false, trivial, converts_numeral ht hn,
    .token (.const (isLiteral_of_admits ht) hn)⟩

theorem hasText_var {w : List Char} (hw : Word.isName w) (n : ℕ) :
    HasText line (node (.rule .var) [leaf .name ⟨.word w, n⟩]) Layer.atom.Allows := by
  intro _
  have hr : Renders (.expr (.var (.ofList w)) false) (String.ofList w).toList :=
    .var (by rwa [String.toList_ofList])
  rw [String.toList_ofList] at hr
  exact ⟨.var _, false, trivial, converts_var line w n, .token hr⟩

/-- The operands of a chain spell a text of what they convert to. -/
theorem exists_spells_chain {k : ℕ} {ds : List Derivation}
    (hds : List.Forall₂ Of (.layer (operand o) :: linkWord o k) ds)
    (hoperand : ∀ d ∈ ds, Of (.layer (operand o)) d → HasText line d (operand o).Allows)
    (hclean : IsClean line ds) :
    ∃ es, es.length = k + 1 ∧ Converts line ds es ∧ Spells (yieldAll ds) (.operands o es) := by
  induction k generalizing ds with
  | zero =>
    obtain ⟨d, ds, hd, hnil, rfl⟩ := List.forall₂_cons_left_iff.1 hds
    obtain rfl := List.forall₂_nil_left_iff.1 hnil
    obtain ⟨e, b, hb, hconv, hspell⟩ := hoperand d (by simp) hd hclean
    refine ⟨[e], rfl, hconv, ?_⟩
    rw [yieldAll_singleton]
    exact hspell.imp fun _ => .one (allows_operand_iff.1 hb)
  | succ k ihk =>
    obtain ⟨d, ds, hd, hlinks, rfl⟩ := List.forall₂_cons_left_iff.1 hds
    obtain ⟨n, f, fs, hf, hfs, rfl⟩ := links_succ_iff.1 hlinks
    obtain ⟨hcd, hcrest⟩ := isClean_cons.1 hclean
    obtain ⟨-, hcrest⟩ := isClean_cons.1 hcrest
    obtain ⟨e, b, hb, hconv, hspell⟩ := hoperand d (by simp) hd hcd
    obtain ⟨es, hlen, hconvs, hspells⟩ :=
      ihk (.cons hf hfs) (fun g hg => hoperand g (.tail _ (.tail _ hg))) hcrest
    refine ⟨e :: es, by rw [List.length_cons, hlen],
      converts_append hconv (converts_append (converts_glyph line _ n) hconvs), ?_⟩
    exact hspell.more n (allows_operand_iff.1 hb) hspells

theorem HasText.layer {l : Layer} {allows allows' : Expr → Bool → Prop}
    (h : HasText line d allows) (himp : ∀ e b, allows e b → allows' e b) :
    HasText line (node (.layer l) [d]) allows' := by
  intro hclean
  obtain ⟨e, b, hb, hconv, hspell⟩ := h (isClean_layer.1 hclean)
  refine ⟨e, b, himp e b hb, converts_layer.2 hconv, ?_⟩
  rwa [yield, yieldAll_singleton]

theorem HasText.expr {allows : Expr → Bool → Prop} (h : HasText line d allows) :
    HasText line (node (.rule .expr) [d]) fun _ _ => True := by
  intro hclean
  obtain ⟨e, b, -, hconv, hspell⟩ := h (isClean_expr.1 hclean)
  refine ⟨e, b, trivial, converts_expr hconv, ?_⟩
  rwa [yield, yieldAll_singleton]

theorem HasText.group {allows : Expr → Bool → Prop} (h : HasText line d allows) (m n : ℕ) :
    HasText line (node (.layer .atom) [leaf (.glyph .opening) ⟨.glyph .opening, m⟩, d,
      leaf (.glyph .closing) ⟨.glyph .closing, n⟩]) Layer.atom.Allows := by
  intro hclean
  have hinner := (isClean_cons.1 (isClean_cons.1 (isClean_layer.1 hclean)).2).1
  obtain ⟨e, b, -, hconv, hspell⟩ := h hinner
  refine ⟨e, true, ?_, converts_layer.2 (converts_group m n hconv), ?_⟩
  · cases e <;> trivial
  · simpa [yield, yieldAll] using hspell.group m n

/-- What the part of a layer may convert to, the layer may. -/
theorem allowed_layer {l : Layer} {s : Symbol} (hw : [s] ∈ (body (.layer l)).matches') (e : Expr)
    (b : Bool) (h : Allowed s e b) : Allowed (.layer l) e b := by
  cases l with
  | sum => trivial
  | product =>
    rcases mem_body_product.1 hw with ⟨o, ho, hs⟩ | hs
    · -- the chains of a product need no parentheses there
      obtain rfl := List.singleton_inj.1 hs
      obtain ⟨es, rfl⟩ := h
      intro hn
      rw [ho] at hn
      cases hn
    · obtain rfl := List.singleton_inj.1 hs
      cases e with
      | chain o es => exact fun _ => h
      | _ => trivial
  | atom =>
    rcases mem_body_atom.1 hw with hs | hs | hs | hs | hs
    case inr.inr.inr.inl => cases hs
    all_goals
      obtain rfl := List.singleton_inj.1 hs
      exact h
  | binding => cases mem_body_binding.1 hw

/-- **The tokens of an operand about which nothing is reported spell what it converts to.** -/
theorem IsOperand.hasText {s : Symbol} {d : Derivation} (h : IsOperand s d) (line : List Char) :
    HasText line d (Allowed s) := by
  induction h with
  | unknown t => exact fun hclean => absurd hclean (not_isClean_unknown t)
  | numeral ht => exact hasText_numeral ht
  | var hw n => exact hasText_var hw n
  | letForm ds => exact fun hclean => absurd hclean (not_isClean_letForm ds)
  | @chain o k ds hds h ih =>
    intro hclean
    obtain ⟨es, hlen, hconv, hspell⟩ := exists_spells_chain hds ih (isClean_chain.1 hclean)
    exact ⟨_, false, ⟨es, rfl⟩, converts_chain hconv, hspell.imp fun _ => .chain (by omega)⟩
  | layer hw h ih => exact ih.layer (allowed_layer hw)
  | group m n h ih => exact ih.group m n
  | expr h ih => exact ih.expr

end Grammar.Derivation

end ArithLine

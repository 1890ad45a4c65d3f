import ArithLine.Proofs.Conversion
import ArithLine.Proofs.Grammar.Context
import ArithLine.Proofs.Placement

/-!
# What one operand changes

A word in the place of an operand changes that operand and nothing else.

* `Tree.bare`, `Diagnostic.bare`: what a tree means and what is reported about it, up to spans,
  do not depend on the spans in it.
* `Tree.Context.IsPlain`: where a hole has no let form around it, what fills it is converted and
  put in its own place of the expression (`Expr.Context`).
* `Source.ReadsAlike`: two sources are read alike but for one operand.
* `Source.exchanged`: so are any two that differ in one word.
-/

namespace ArithLine

open Grammar Derivation

/-- An expression with a hole in the place of one of its parts. -/
inductive Expr.Context where
  | hole
  | chain (op : Op) (before : List Expr) (inner : Expr.Context) (after : List Expr)

/-- The expression with a part in the place of the hole. -/
def Expr.Context.fill : Context → Expr → Expr
  | hole, e => e
  | chain o es c fs, e => .chain o (es ++ c.fill e :: fs)

/-- A diagnostic without its span. -/
def Diagnostic.bare : Diagnostic → Diagnostic
  | unhandledRule r _ => .unhandledRule r .zero
  | illegalTerminal s _ => .illegalTerminal s .zero
  | badWord s _ => .badWord s .zero

namespace Tree

/-! ## Spans play no part -/

mutual

theorem bare_eq_mapSpans : ∀ t : Tree, t.bare = t.mapSpans fun _ => .zero
  | node _ ts _ => by rw [bare, mapSpans, bareAll_eq_mapSpansAll ts]
  | token _ _ => rfl
  | bad _ _ => rfl

theorem bareAll_eq_mapSpansAll : ∀ ts : List Tree, bareAll ts = mapSpansAll (fun _ => .zero) ts
  | [] => rfl
  | t :: ts => by rw [bareAll, mapSpansAll, bare_eq_mapSpans t, bareAll_eq_mapSpansAll ts]

end

theorem text_bare (t : Tree) : t.bare.text = t.text := by
  rw [bare_eq_mapSpans, text_mapSpans]

/-- What a tree means does not depend on its spans. -/
theorem expr?_bare (t : Tree) : t.bare.expr? = t.expr? := by
  rw [bare_eq_mapSpans, expr?_mapSpans]

theorem exprs_bare (ts : List Tree) : exprs (bareAll ts) = exprs ts := by
  rw [bareAll_eq_mapSpansAll, exprs_mapSpans]

/-- What is reported about a tree does not depend on its spans, up to spans. -/
theorem diagnostics_bare (t : Tree) : t.bare.diagnostics = t.diagnostics.map Diagnostic.bare := by
  rw [bare_eq_mapSpans, diagnostics_mapSpans]
  refine List.map_congr_left fun d _ => ?_
  cases d <;> rfl

/-- A tree that is the same as a node around one child, up to spans. -/
theorem exists_node_of_bare {r : Rule} {t u : Tree} {sp : Span}
    (h : t.bare = (node r [u] sp).bare) : ∃ v sp', t = node r [v] sp' ∧ v.bare = u.bare := by
  cases t with
  | node r' ts sp' =>
    obtain ⟨rfl, hts, -⟩ := Tree.node.inj h
    rw [bareAll_eq, bareAll_eq, List.map_singleton] at hts
    obtain ⟨v, rfl, hv⟩ := List.map_eq_singleton_iff.1 hts
    exact ⟨v, sp', rfl, hv⟩
  | token => cases h
  | bad => cases h

/-! ## What fills a hole -/

namespace Context

/-- Whether no let form is around a hole. -/
def AvoidsLet : Context → Prop
  | hole => True
  | node r _ c _ _ => r ≠ .letForm ∧ c.AvoidsLet

/-- Whether what fills a hole is converted: it is in expressions and chains only, and nothing
that comes before it in an expression has a meaning. -/
def IsPlain : Context → Prop
  | hole => True
  | node .expr before c _ _ => exprs before = [] ∧ c.IsPlain
  | node (.chain _) _ c _ _ => c.IsPlain
  | node .. => False

variable {c : Context}

/-- What fills a hole means its own part of the expression. -/
theorem IsPlain.exists_expr (h : c.IsPlain) :
    ∃ E : Expr.Context, ∀ v e, v.expr? = some e → (c.fill v).expr? = some (E.fill e) := by
  induction c with
  | hole => exact ⟨.hole, fun v e he => he⟩
  | node r before c after s ih =>
    cases r with
    | expr =>
      obtain ⟨hbefore, hc⟩ := h
      obtain ⟨E, hE⟩ := ih hc
      refine ⟨E, fun v e he => ?_⟩
      rw [exprs_eq] at hbefore
      simp [fill, expr?, exprs_eq, hbefore, hE v e he]
    | chain o =>
      obtain ⟨E, hE⟩ := ih h
      refine ⟨.chain o (exprs before) E (exprs after), fun v e he => ?_⟩
      simp [fill, expr?, exprs_eq, Expr.Context.fill, hE v e he]
    | _ => cases h

/-- What is reported about what fills a hole comes between what is reported about the rest. -/
theorem IsPlain.exists_diagnostics (h : c.IsPlain) :
    ∃ ds es, ∀ v, (c.fill v).diagnostics = ds ++ (v.diagnostics ++ es) := by
  induction c with
  | hole => exact ⟨[], [], fun v => by simp [fill]⟩
  | node r before c after s ih =>
    have hnode : ∀ ds es, (∀ v, (c.fill v).diagnostics = ds ++ (v.diagnostics ++ es)) →
        ∀ v, (notesAll (before ++ c.fill v :: after)).filterMap Note.diagnostic? =
          (notesAll before).filterMap Note.diagnostic? ++ ds ++ (v.diagnostics ++ (es ++
            (notesAll after).filterMap Note.diagnostic?)) := by
      intro ds es hc v
      have hv := hc v
      rw [diagnostics] at hv
      simp only [notesAll_eq, List.flatMap_append, List.flatMap_cons, List.filterMap_append, hv,
        List.append_assoc]
    cases r with
    | expr =>
      obtain ⟨ds, es, hc⟩ := ih h.2
      exact ⟨_, _, fun v => hnode ds es hc v⟩
    | chain o =>
      obtain ⟨ds, es, hc⟩ := ih h
      exact ⟨_, _, fun v => hnode ds es hc v⟩
    | _ => cases h

end Context

/-- A tree that is no token, as a list. -/
def nontoken : Tree → List Tree
  | token .. => []
  | t => [t]

theorem mem_nontoken {t u : Tree} : u ∈ t.nontoken ↔ u = t ∧ ∀ s sp, u ≠ token s sp := by
  cases t <;> simp [nontoken] <;> rintro rfl <;> simp

/-- What is no token is in an operand of its chain. -/
theorem exists_mem_operandsOf (o : Op) {ts : List Tree} {u : Tree} (hu : u ∈ ts)
    (ht : ∀ s sp, u ≠ token s sp) : ∃ os ∈ operandsOf o ts, u ∈ os := by
  have hmem : u ∈ ts.flatMap nontoken := List.mem_flatMap.2 ⟨u, hu, mem_nontoken.2 ⟨rfl, ht⟩⟩
  rw [flatMap_operandsOf o fun _ _ _ => rfl] at hmem
  obtain ⟨os, hos, hmem⟩ := List.mem_flatMap.1 hmem
  obtain ⟨t, ht, hmem⟩ := List.mem_flatMap.1 hmem
  obtain rfl := (mem_nontoken.1 hmem).1
  exact ⟨os, hos, ht⟩

/-- A word that has no let form around it is converted. -/
theorem Means.isPlain {ts before after : List Tree} {m : Option Expr} {c : Context} {u : Tree}
    {x : String} {sp : Span} (h : Means ts m) (hu : u.IsWord x sp)
    (hts : ts = before ++ c.fill u :: after) (hc : c.AvoidsLet) :
    exprs before = [] ∧ c.IsPlain := by
  induction h generalizing before after c with
  | number h =>
    obtain ⟨rfl, hnode, -⟩ := singleton_eq_append_cons hts
    obtain rfl := hu.eq_of_node hnode
    exact ⟨rfl, trivial⟩
  | name s sp sp' =>
    obtain ⟨rfl, hnode, -⟩ := singleton_eq_append_cons hts
    obtain rfl := hu.eq_of_node hnode
    exact ⟨rfl, trivial⟩
  | unknown s sp =>
    obtain ⟨rfl, hbad, -⟩ := singleton_eq_append_cons hts
    cases c with
    | hole => exact ⟨rfl, trivial⟩
    | node => cases hbad
  | letForm ts sp =>
    obtain ⟨rfl, hnode, -⟩ := singleton_eq_append_cons hts
    obtain ⟨b, d, a, rfl, -⟩ := hu.exists_inner (by simp) hnode
    exact absurd rfl hc.1
  | @group ts m sp sp' sp'' h ih =>
    -- the parentheses are tokens, so the expression between them is what is filled
    rcases before with _ | ⟨t, before⟩
    · exact absurd (List.cons.inj hts).1.symm (hu.fill_ne_token _ _)
    obtain ⟨rfl, hrest⟩ := List.cons.inj hts
    rcases before with _ | ⟨t, before⟩
    · obtain ⟨b, d, a, rfl, rfl⟩ := hu.exists_inner (by simp) (List.cons.inj hrest).1.symm
      have hglyph : exprs [token "(" sp] = [] := by
        simp [exprs, expr?, show isGlyph "(" by decide]
      exact ⟨hglyph, ih rfl hc.2⟩
    · obtain ⟨-, hclosing, -⟩ := singleton_eq_append_cons (List.cons.inj hrest).2
      exact absurd hclosing (hu.fill_ne_token _ _)
  | @chain o ts ms sp hlen h ih =>
    obtain ⟨rfl, hnode, -⟩ := singleton_eq_append_cons hts
    obtain ⟨b, d, a, rfl, rfl⟩ := hu.exists_inner (by simp) hnode
    have hin : d.fill u ∈ b ++ d.fill u :: a := by simp
    obtain ⟨os, hos, hmem⟩ := exists_mem_operandsOf o hin fun s sp => hu.fill_ne_token s sp
    obtain ⟨y, hy⟩ := exists_mem_zip hlen hos
    obtain ⟨b', a', hsplit⟩ := List.append_of_mem hmem
    exact ⟨rfl, (ih _ hy hsplit hc.2).2⟩

/-- A word is an operand of its own. -/
theorem isWord_operand {w : List Char} (hw : w.all isWordChar) (n : ℕ) :
    (Token.operand ⟨.word w, n⟩).IsWord (.ofList w) (Token.span ⟨.word w, n⟩) := by
  unfold Token.operand
  split
  · next v hv =>
    obtain rfl : w = v := Lexeme.word.inj hv
    split
    · refine .numeral _ ?_
      rw [String.toList_ofList]
      intro hminus
      obtain ⟨r, rfl⟩ := List.head?_eq_some_iff.1 hminus
      exact absurd (List.all_eq_true.1 hw '-' (by simp)) (by decide)
    · exact .var _
    · exact .bad
  · next h => exact absurd rfl (h w)

/-- An operand that is a word has a meaning. -/
theorem IsWord.exists_expr {x : String} {sp : Span} {u : Tree} (h : u.IsWord x sp)
    (hx : x.toList.all isWordChar) : ∃ e, u.expr? = some e := by
  have hglyph : isGlyph x = false := by
    unfold isGlyph
    split
    · next c hc =>
      rw [hc] at hx
      rw [ofChar?_of_isWordChar (by simpa using hx)]
      rfl
    · rfl
  cases h with
  | numeral s => simp [expr?, exprs, hglyph]
  | var s => exact ⟨_, rfl⟩
  | bad => exact ⟨_, rfl⟩

end Tree

/-! ## Two sources -/

namespace Source

variable {s : Source} {t : Tree} {sp : Span}

theorem program_eq_of_root {e : Expr} (h : s.tree = .ok (.node .program [t] sp))
    (he : t.expr? = some e) : s.program = .ok ⟨e⟩ := by
  rw [program, h]
  change (Tree.program _).mapError _ = _
  rw [Tree.program, he]
  rfl

theorem program_eq_of_none (h : s.tree = .ok (.node .program [t] sp)) (ht : t.expr? = none) :
    s.program = .error (.noProgram s ⟨t.text, t.span⟩) := by
  rw [program, h]
  change (Tree.program _).mapError _ = _
  rw [Tree.program, ht]
  rfl

/-- Two sources with the same expression have the same program, or none. -/
theorem program_cases {s' : Source} {t' : Tree} {sp' : Span}
    (h : s.tree = .ok (.node .program [t] sp)) (h' : s'.tree = .ok (.node .program [t'] sp'))
    (ht : t'.expr? = t.expr?) : (∃ p, s.program = .ok p ∧ s'.program = .ok p) ∨
      s.program = .error (.noProgram s ⟨t.text, t.span⟩) ∧
        s'.program = .error (.noProgram s' ⟨t'.text, t'.span⟩) := by
  cases he : t.expr? with
  | some e => exact .inl ⟨⟨e⟩, program_eq_of_root h he, program_eq_of_root h' (ht.trans he)⟩
  | none => exact .inr ⟨program_eq_of_none h he, program_eq_of_none h' (ht.trans he)⟩

theorem diagnostics_eq_of_root (h : s.tree = .ok (.node .program [t] sp)) :
    s.diagnostics = t.diagnostics := by
  rw [diagnostics, h]
  rfl

/-- Whether a source is read like another that has an operand `u` in a hole of its tree, but
with the operand `v` there. -/
structure ReadsAlike (s s' : Source) (c : Tree.Context) (u v : Tree) : Prop where
  tree : ∃ t, s'.tree = .ok t ∧ t.bare = (c.fill v).bare
  /-- Outside let forms the expression is the same, but for what the operand means. -/
  program : c.AvoidsLet → ∃ (E : Expr.Context) (e e' : Expr), u.expr? = some e ∧ v.expr? = some e' ∧
    s.program = .ok ⟨E.fill e⟩ ∧ s'.program = .ok ⟨E.fill e'⟩
  /-- What is reported about the rest stays, in its order. -/
  diagnostics : c.AvoidsLet → ∃ ds es, s.diagnostics = ds ++ (u.diagnostics ++ es) ∧
    s'.diagnostics.map Diagnostic.bare = (ds ++ (v.diagnostics ++ es)).map Diagnostic.bare

/-- The part of a source's tree below its root, around a hole. -/
theorem exists_body {c : Tree.Context} {u : Tree} {x : String} (h : s.tree = .ok (c.fill u))
    (hu : u.IsWord x sp) : ∃ (d : Tree.Context) (sp' : Span),
      (∀ v, c.fill v = .node .program [d.fill v] sp') ∧ (c.AvoidsLet → d.IsPlain) := by
  obtain ⟨ts, a, b, m, hroot, hm⟩ := exists_means_of_ofLine (tree_eq_ok_iff.1 h)
  obtain ⟨before, d, after, rfl, hexpr⟩ := hu.exists_inner (by simp) hroot
  obtain ⟨rfl, hbody, rfl⟩ := singleton_eq_append_cons hexpr
  obtain ⟨before, d, after, rfl, rfl⟩ := hu.exists_inner (by simp) hbody
  exact ⟨.node .expr before d after a, b, fun v => rfl, fun hc => hm.isPlain hu rfl hc.2.2⟩

/-- A source whose tree is that of another, but for an operand and the spans, is read alike. -/
theorem readsAlike_of_bare {s' : Source} {c : Tree.Context} {u v : Tree} {x : String} {e e' : Expr}
    (h : s.tree = .ok (c.fill u)) (h' : s'.tree = .ok t) (hbare : t.bare = (c.fill v).bare)
    (hu : u.IsWord x sp) (he : u.expr? = some e) (he' : v.expr? = some e') :
    s.ReadsAlike s' c u v := by
  obtain ⟨b, sp', hfill, hplain⟩ := exists_body h hu
  have hroot := Tree.exists_node_of_bare (hfill v ▸ hbare)
  refine ⟨⟨t, h', hbare⟩, fun hc => ?_, fun hc => ?_⟩
  all_goals
    obtain ⟨y, sp'', rfl, hy⟩ := hroot
    rw [hfill u] at h
  · obtain ⟨E, hE⟩ := (hplain hc).exists_expr
    have hbody : y.expr? = some (E.fill e') := by
      rw [← Tree.expr?_bare, hy, Tree.expr?_bare]
      exact hE v e' he'
    exact ⟨E, e, e', he, he', program_eq_of_root h (hE u e he), program_eq_of_root h' hbody⟩
  · obtain ⟨ds, es, hdiagnostics⟩ := (hplain hc).exists_diagnostics
    refine ⟨ds, es, ?_, ?_⟩
    · rw [diagnostics_eq_of_root h, hdiagnostics]
    · rw [diagnostics_eq_of_root h', ← Tree.diagnostics_bare, hy, Tree.diagnostics_bare,
        hdiagnostics]

/-- **Another word in the place of an operand changes that operand and nothing else.** -/
theorem exchanged {c : Tree.Context} {u : Tree} {x : String} (h : s.tree = .ok (c.fill u))
    (hu : u.IsWord x sp) : ∃ before after, s.content = before ++ x ++ after ∧
      sp = ⟨before.utf8ByteSize, (before ++ x).utf8ByteSize⟩ ∧
      ∀ w : String, w ≠ "" → w.toList.all isWordChar →
        s.ReadsAlike ⟨s.name, before ++ w ++ after⟩ c u (Token.operand ⟨.word w.toList, sp.start⟩) := by
  obtain ⟨d, hd, hlow⟩ := exists_derives_of_ofLine (tree_eq_ok_iff.1 h)
  obtain ⟨before, after, hline, rfl, hx, hex⟩ := hd.exists_exchanged hlow hu
  refine ⟨.ofList before, .ofList after, ?_, ?_, fun w hw hall => ?_⟩
  · rw [← String.toList_inj, hline]
    simp
  · simp [utf8ByteSize_eq]
  · obtain ⟨t, ht, hbare⟩ := hex w.toList (by simpa using hw) hall
    have htree : (Source.mk s.name (.ofList before ++ w ++ .ofList after)).tree = .ok t := by
      rw [tree_eq_ok_iff, ← ht]
      congr 1
      rw [← String.toList_inj]
      simp
    obtain ⟨e, he⟩ := hu.exists_expr hx
    obtain ⟨e', he'⟩ := (Tree.isWord_operand hall (byteLength before)).exists_expr (by simpa using hall)
    exact readsAlike_of_bare h htree hbare hu he he'

theorem exchanged_minuend : ∃ (c : Tree.Context) (u : Tree),
    (Source.input "(x-y)").tree = .ok (c.fill u) ∧ u.IsWord "x" ⟨1, 2⟩ ∧
      ∃ before after, "(x-y)" = before ++ "x" ++ after ∧
        (⟨1, 2⟩ : Span) = ⟨before.utf8ByteSize, (before ++ "x").utf8ByteSize⟩ ∧
        ∀ w : String, w ≠ "" → w.toList.all isWordChar → (Source.input "(x-y)").ReadsAlike
          ⟨"<input>", before ++ w ++ after⟩ c u (Token.operand ⟨.word w.toList, 1⟩) := by
  have htree : (Source.input "(x-y)").tree = .ok (Tree.Context.fill (.node .program []
      (.node .expr [.token "(" ⟨0, 1⟩] (.node .expr [] (.node (.chain .sub) [] .hole
        [.token "-" ⟨2, 3⟩, .node .var [.token "y" ⟨3, 4⟩] ⟨3, 4⟩] ⟨1, 4⟩) [] ⟨1, 4⟩)
        [.token ")" ⟨4, 5⟩] ⟨0, 5⟩) [] ⟨0, 5⟩) (.node .var [.token "x" ⟨1, 2⟩] ⟨1, 2⟩)) := by rfl
  exact ⟨_, _, htree, .var _, exchanged htree (.var _)⟩

end Source

end ArithLine

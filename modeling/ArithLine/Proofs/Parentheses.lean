import ArithLine.Proofs.Operand
import ArithLine.Proofs.Parentheses.Enclosure

/-!
# Parentheses leave no trace

Parentheses around a part of a line put no more than themselves into its tokens. The tokens
between them move by one byte and those after them by two.

* `Span.enclose`: where the bytes of a span are after that. No token and no let form is partly
  inside the parentheses (`Span.Clears`), so this is told by its two ends.
* `Derives.exists_enclosed`: the derivation with the parentheses, and what is reported about it.
* `Source.enclosed`: what a source means does not change.
-/

namespace ArithLine

open Grammar Derivation

namespace Span

/-- Where the bytes of `x` are once there are parentheses around those of `sp`. -/
def enclose (sp x : Span) : Span :=
  if sp.start ≤ x.start ∧ x.stop ≤ sp.stop then ⟨x.start + 1, x.stop + 1⟩
  else if x.stop ≤ sp.start then x
  else if sp.stop ≤ x.start then ⟨x.start + 2, x.stop + 2⟩
  else ⟨x.start, x.stop + 2⟩

/-- Whether some bytes are inside, before, after or around those of `sp`. -/
inductive Clears (sp x : Span) : Prop
  | inside (start : sp.start ≤ x.start ∧ x.start < sp.stop)
    (stop : sp.start < x.stop ∧ x.stop ≤ sp.stop)
  | before (start : x.start < sp.start) (stop : x.stop ≤ sp.start)
  | after (start : sp.stop ≤ x.start) (stop : sp.stop < x.stop)
  | around (start : x.start < sp.start) (stop : sp.stop < x.stop)

/-- Where a token that starts at a byte starts once there are parentheses. -/
def startAfter (sp : Span) (n : ℕ) : ℕ :=
  if n < sp.start then n else if n < sp.stop then n + 1 else n + 2

/-- Where a token that ends at a byte ends once there are parentheses. -/
def stopAfter (sp : Span) (n : ℕ) : ℕ :=
  if n ≤ sp.start then n else if n ≤ sp.stop then n + 1 else n + 2

/-- What is not partly inside the parentheses is moved by its two ends. -/
theorem Clears.enclose_eq {sp x : Span} (h : sp.Clears x) (hsp : sp.start ≤ sp.stop) :
    ⟨sp.startAfter x.start, sp.stopAfter x.stop⟩ = sp.enclose x := by
  obtain ⟨m, n⟩ := x
  simp only [startAfter, stopAfter, enclose]
  cases h <;> split_ifs <;> simp only [Span.mk.injEq] at * <;> omega

/-- Some tokens before the bytes of a span, in them and after them. -/
structure Splits (sp : Span) (ts us vs : List Token) : Prop where
  before : ∀ t ∈ ts, t.start < t.stop ∧ t.stop ≤ sp.start
  inside : ∀ t ∈ us, sp.start ≤ t.start ∧ t.start < t.stop ∧ t.stop ≤ sp.stop
  after : ∀ t ∈ vs, sp.stop ≤ t.start ∧ t.start < t.stop
  ordered : sp.start ≤ sp.stop

namespace Splits

variable {sp : Span} {ts us vs : List Token} (h : sp.Splits ts us vs)
include h

theorem startAfter_before : ∀ t ∈ ts, sp.startAfter t.start = t.start := by
  intro t ht
  have := h.before t ht
  exact if_pos (by omega)

theorem startAfter_inside : ∀ t ∈ us, sp.startAfter t.start = t.start + 1 := by
  intro t ht
  have := h.inside t ht
  rw [startAfter, if_neg (by omega), if_pos (by omega)]

theorem startAfter_after : ∀ t ∈ vs, sp.startAfter t.start = t.start + 2 := by
  intro t ht
  have := h.after t ht
  have := h.ordered
  rw [startAfter, if_neg (by omega), if_neg (by omega)]

/-- A token that is moved has as many bytes as before. -/
theorem stop_move : ∀ t ∈ ts ++ (us ++ vs), (t.move sp.startAfter).stop = sp.stopAfter t.stop := by
  have hsp := h.ordered
  intro t ht
  simp only [List.mem_append] at ht
  rcases ht with ht | ht | ht
  · have := h.before t ht
    rw [Token.stop_move (k := 0) (h.startAfter_before t ht), stopAfter, if_pos (by omega), Nat.add_zero]
  · have := h.inside t ht
    rw [Token.stop_move (h.startAfter_inside t ht), stopAfter, if_neg (by omega), if_pos (by omega)]
  · have := h.after t ht
    rw [Token.stop_move (h.startAfter_after t ht), stopAfter, if_neg (by omega), if_neg (by omega)]

end Splits

end Span

namespace Diagnostic

/-- Whether a diagnostic is not partly inside parentheses around the bytes of a span, and is about a
let form if it is around these. -/
structure Clears (sp : Span) (x : Diagnostic) : Prop where
  clears : sp.Clears x.span
  letForm : x.span.start < sp.start → sp.stop < x.span.stop → ∃ y, x = unhandledRule .letForm y

theorem mapSpan_congr {f g : Span → Span} {x : Diagnostic} (h : f x.span = g x.span) :
    x.mapSpan f = x.mapSpan g := by
  cases x <;> exact congrArg _ h

end Diagnostic

/-- The parse trees that are the same up to spans mean the same. -/
theorem Tree.exprs_eq_of_bare {ts us : List Tree} (h : ts.map bare = us.map bare) :
    exprs ts = exprs us := by
  rw [← exprs_bare ts, ← exprs_bare us, bareAll_eq, bareAll_eq, h]

variable {ts us vs : List Token} {cs : List Char} {sp : Span}

/-- Parentheses around the first of two texts. -/
theorem Covers.parens {n : ℕ} {ds : List Char} (hus : Covers (n + 1) us cs)
    (hvs : Covers (n + 1 + byteLength cs + 1) vs ds) :
    Covers n (⟨.glyph .opening, n⟩ :: (us ++ ⟨.glyph .closing, n + 1 + byteLength cs⟩ :: vs))
      ('(' :: (cs ++ ')' :: ds)) :=
  .glyph .opening (hus.append (.glyph .closing hvs) (not_runsInto_glyph cs .closing ds))

/-- **A line with parentheses around some of its tokens.** -/
theorem Covers.exists_enclosed (h : Covers 0 (ts ++ (us ++ vs)) cs)
    (hstart : ∃ t ∈ us.head?, sp.start = t.start)
    (hstop : sp.stop = nextStart vs (byteLength cs) ∨ ∃ t ∈ us.getLast?, sp.stop = t.stop) :
    ∃ before inside after, cs = before ++ (inside ++ after) ∧
      sp = ⟨byteLength before, byteLength before + byteLength inside⟩ ∧ sp.Splits ts us vs ∧
      Covers 0 (ts.map (Token.move sp.startAfter) ++ ⟨.glyph .opening, sp.start⟩ ::
          (us.map (Token.move sp.startAfter) ++ ⟨.glyph .closing, sp.stop + 1⟩ ::
            vs.map (Token.move sp.startAfter)))
        (before ++ '(' :: (inside ++ ')' :: after)) := by
  obtain ⟨t, ht, hstart⟩ := hstart
  obtain ⟨us', rfl⟩ : ∃ us', us = t :: us' := ⟨us.tail, (List.cons_head?_tail ht).symm⟩
  obtain ⟨before, rest, rfl, hbefore, hts, hrest⟩ := h.cut (k := sp.start) (.inl hstart)
  rw [Nat.zero_add] at hbefore
  rw [byteLength_append, ← hbefore] at hstop
  obtain ⟨inside, after, rfl, hinside, hus, hvs⟩ := hrest.cut (k := sp.stop) hstop
  have hsplits : sp.Splits ts (t :: us') vs := by
    refine ⟨fun t ht => ?_, fun t ht => ?_, fun t ht => ?_, by omega⟩
    · have := hts.bounds t ht
      omega
    · have := hus.bounds t ht
      omega
    · have := hvs.bounds t ht
      omega
  refine ⟨before, inside, after, rfl, by rw [← hbefore, ← hinside], hsplits, ?_⟩
  -- each of the three texts stands further on by the parentheses before it
  have hts' : Covers 0 (ts.map (Token.move sp.startAfter)) before :=
    hts.move (k := 0) hsplits.startAfter_before
  have hus' := hus.move hsplits.startAfter_inside
  have hvs' := hvs.move hsplits.startAfter_after
  rw [show sp.stop + 2 = sp.start + 1 + byteLength inside + 1 by omega] at hvs'
  have hparens := hus'.parens hvs'
  rw [Nat.add_right_comm, ← hinside] at hparens
  exact hts'.append (by rwa [Nat.zero_add, ← hbefore]) (not_runsInto_glyph before .opening _)

namespace Grammar.Derivation

/-- Whether `e` is a derivation of another line that means what `d` means, and of which the same is
reported, with parentheses around the bytes of `sp`. -/
structure EnclosedBy (line line' : List Char) (sp : Span) (d e : Derivation) : Prop where
  exprs : Tree.exprs (e.lower line') = Tree.exprs (d.lower line)
  reports : e.reports line' = (d.reports line).map (Diagnostic.mapSpan sp.enclose)
  clears : ∀ x ∈ d.reports line, x.Clears sp

variable {c : Context} {f : Derivation} {l : Layer}

/-- What is reported about a derivation is not partly inside one of its parts. -/
theorem Context.clears_of_mem_reports (c : Context) (line : List Char) (hv : (c.fill f).Valid)
    (hp : (c.fill f).symbol ≠ .rule .program) (hf : Of (.layer l) f)
    (h : sp.Splits c.before f.yield c.after) :
    ∀ x ∈ (c.fill f).reports line, x.Clears sp := by
  intro x hx
  have hsp := h.ordered
  have hterminal : ∀ k, f.symbol ≠ .terminal k := fun k => by rw [hf.symbol]; nofun
  have hprogram : f.symbol ≠ .rule .program := by rw [hf.symbol]; nofun
  rcases c.mem_reports_fill hv hp hterminal hx with
    ⟨p, hp, q, hq, hstart, hstop⟩ | hx | ⟨p, hp, q, hq, hstart, hstop⟩ | ⟨p, hp, q, hq, rfl⟩
  · have := h.before p hp
    have := h.before q hq
    exact ⟨.before (by omega) (by omega), fun _ _ => by omega⟩
  · obtain ⟨p, hp, q, hq, hstart, hstop⟩ := hf.valid.isWithin_reports hprogram x hx
    have := h.inside p hp
    have := h.inside q hq
    exact ⟨.inside (by omega) (by omega), fun _ _ => by omega⟩
  · have := h.after p hp
    have := h.after q hq
    exact ⟨.after (by omega) (by omega), fun _ _ => by omega⟩
  · exact ⟨.around ((h.before p hp).1.trans_le (h.before p hp).2)
      ((h.after q hq).1.trans_lt (h.after q hq).2), fun _ _ => ⟨_, rfl⟩⟩

/-- **A derivation with parentheses around one of its layers.** -/
theorem Derives.exists_enclosed {line : String}
    (h : Derives line (.node (.rule .program) [c.fill f])) (hf : Of (.layer l) f)
    (hl : l ≠ .binding) (hsp : sp = Tree.extent (f.lower line.toList)) :
    ∃ before inside after, line.toList = before ++ (inside ++ after) ∧
      sp = ⟨byteLength before, byteLength before + byteLength inside⟩ ∧
      ∃ e, Derives (.ofList (before ++ '(' :: (inside ++ ')' :: after)))
          (.node (.rule .program) [e]) ∧ Of (.rule .expr) e ∧
        EnclosedBy line.toList (before ++ '(' :: (inside ++ ')' :: after)) sp (c.fill f) e := by
  obtain ⟨d, hd, heq⟩ := of_program_iff.1 ⟨h.symbol, h.valid⟩
  obtain rfl : c.fill f = d := List.singleton_inj.1 (Derivation.node.inj heq).2
  have hp : (c.fill f).symbol ≠ .rule .program := by rw [hd.symbol]; nofun
  have hcovers : Covers 0 (c.before ++ (f.yield ++ c.after)) line.toList := by
    rw [← Context.yield_fill, ← yieldAll_singleton]
    exact h.covers
  have hspaced := hcovers.spaced [] rfl
  rw [Nat.zero_add, List.nil_append, spaced_append, spaced_append] at hspaced
  have hreaches := hf.valid.reaches (by rw [hf.symbol]; nofun) hspaced.2.1
  obtain ⟨before, inside, after, hline, hspan, hsplits, hcovers'⟩ :=
    hcovers.exists_enclosed (hsp ▸ hreaches.extent.1) (hsp ▸ hreaches.extent.2)
  obtain ⟨e, he, hyield, hreads⟩ :=
    Context.exists_group_fill hd hf hl sp.startAfter sp.start (sp.stop + 1)
  have hclears := c.clears_of_mem_reports line.toList hd.valid hp hf hsplits
  refine ⟨before, inside, after, hline, hspan, e, ⟨rfl, (of_program_iff.2 ⟨_, he, rfl⟩).valid, ?_⟩,
    he, ?_, ?_, hclears⟩
  · rw [yield, yieldAll_singleton, hyield, String.toList_ofList]
    exact hcovers'
  · rw [hreads.exprs]
    refine Tree.exprs_eq_of_bare ?_
    rw [bare_move, bare_lower]
  · rw [hreads.reports, hd.valid.reports_move hp (h := sp.stopAfter)
      (by rw [Context.yield_fill]; exact hsplits.stop_move)]
    refine List.map_congr_left fun x hx => Diagnostic.mapSpan_congr ?_
    exact (hclears x hx).clears.enclose_eq hsplits.ordered

end Grammar.Derivation

/-! ## Sources -/

namespace Source

variable {s : Source} {t u : Tree}

/-- The tree of a source with a given derivation, what it means and what is reported about it. -/
theorem exists_root {e : Derivation} (h : Derives s.content (.node (.rule .program) [e]))
    (he : Of (.rule .expr) e) : ∃ x sp, s.tree = .ok (.node .program [x] sp) ∧
      Tree.exprs (e.lower s.content.toList) = x.expr?.toList ∧
      e.reports s.content.toList = s.diagnostics := by
  obtain ⟨t, ht, hlow⟩ := h.ofLine
  obtain ⟨ts, sp, hroot⟩ := exists_lower_expr s.content.toList he
  rw [lower, lowerAll_singleton, hroot, List.singleton_inj] at hlow
  have htree := tree_eq_ok_iff.2 (hlow ▸ ht)
  refine ⟨_, _, htree, ?_, ?_⟩
  · rw [hroot, Tree.exprs, Tree.exprs, List.append_nil]
  · rw [diagnostics_eq_of_root htree, reports, hroot, Tree.notesAll, Tree.notesAll, List.append_nil,
      Tree.diagnostics]

/-- Whether a source is read like another with parentheses around the bytes of a span. -/
structure EnclosedBy (s s' : Source) (sp : Span) : Prop where
  accepted : ∃ t, s'.tree = .ok t
  program : (∃ p, s.program = .ok p ∧ s'.program = .ok p) ∨
    ∃ n n', s.program = .error (.noProgram s n) ∧ s'.program = .error (.noProgram s' n')
  diagnostics : s'.diagnostics = s.diagnostics.map (Diagnostic.mapSpan sp.enclose)
  clears : ∀ x ∈ s.diagnostics, x.Clears sp

theorem EnclosedBy.of_derives {s' : Source} {sp : Span} {d e : Derivation}
    (hd : Derives s.content (.node (.rule .program) [d])) (he : Of (.rule .expr) d)
    (hd' : Derives s'.content (.node (.rule .program) [e])) (he' : Of (.rule .expr) e)
    (h : Derivation.EnclosedBy s.content.toList s'.content.toList sp d e) : s.EnclosedBy s' sp := by
  obtain ⟨x, m, htree, hexprs, hreports⟩ := exists_root hd he
  obtain ⟨y, n, htree', hexprs', hreports'⟩ := exists_root hd' he'
  have hexpr : y.expr? = x.expr? := by
    have hlist := h.exprs
    rw [hexprs, hexprs'] at hlist
    simpa using congrArg List.head? hlist
  refine ⟨⟨_, htree'⟩, ?_, ?_, hreports ▸ h.clears⟩
  · rcases program_cases htree htree' hexpr with hp | ⟨hn, hn'⟩
    · exact .inl hp
    · exact .inr ⟨_, _, hn, hn'⟩
  · rw [← hreports, ← hreports']
    exact h.reports

/-- **Parentheses leave no trace**, be they around any node but the root or around a bad word. -/
theorem enclosed (h : s.tree = .ok t) (hu : u ∈ t.nodes ∨ u ∈ t.leaves) (hne : u.IsEnclosable) :
    ∃ before inside after : String, s.content = before ++ inside ++ after ∧
      u.span = ⟨before.utf8ByteSize, (before ++ inside).utf8ByteSize⟩ ∧
      s.EnclosedBy ⟨s.name, before ++ "(" ++ inside ++ ")" ++ after⟩ u.span := by
  obtain ⟨d, hd, hlow⟩ := exists_derives_of_ofLine (tree_eq_ok_iff.1 h)
  obtain ⟨e, he, rfl⟩ := of_program_iff.1 ⟨hd.symbol, hd.valid⟩
  have hpart : u.IsPartOf ((Derivation.node (.rule .program) [e]).lower s.content.toList) := by
    rw [hlow]
    simpa [Tree.IsPartOf, Tree.nodesAll, Tree.leavesAll] using hu
  rcases hd.valid.exists_layer hpart hne with ⟨f, l, hocc, hf, hl, hspan⟩ | ⟨hsingle, -⟩
  swap
  · cases hsingle
  obtain ⟨c, rfl⟩ : ∃ c : Context, e = c.fill f := by
    cases hocc with
    | here => cases hf.symbol
    | part hmem hocc => exact List.mem_singleton.1 hmem ▸ hocc.exists_fill
  obtain ⟨before, inside, after, hline, hsp, e', hd', he', henclosed⟩ :=
    Derives.exists_enclosed hd hf hl hspan
  have hcontent : String.ofList (before ++ '(' :: (inside ++ ')' :: after)) =
      .ofList before ++ "(" ++ .ofList inside ++ ")" ++ .ofList after := by
    apply String.toList_inj.1
    simp
  refine ⟨.ofList before, .ofList inside, .ofList after, ?_, ?_, ?_⟩
  · apply String.toList_inj.1
    simp [hline]
  · rw [← String.ofList_append, utf8ByteSize_ofList, utf8ByteSize_ofList, byteLength_append, hsp]
  · rw [← hcontent]
    exact .of_derives hd he hd' he' (by rwa [String.toList_ofList])

/-- The blank after a product is inside the parentheses, and the let form is around them. -/
theorem enclosed_in_letForm : ∃ t, (Source.input "(let ((y 2*x )) y)").tree = .ok t ∧
    ∃ u ∈ t.nodes, u.IsEnclosable ∧ u.span = ⟨9, 13⟩ ∧ ∃ before inside after : String,
      "(let ((y 2*x )) y)" = before ++ inside ++ after ∧
      u.span = ⟨before.utf8ByteSize, (before ++ inside).utf8ByteSize⟩ ∧
      (Source.input "(let ((y 2*x )) y)").EnclosedBy
        ⟨"<input>", before ++ "(" ++ inside ++ ")" ++ after⟩ u.span := by
  obtain ⟨t, ht, u, hu, hne, hspan⟩ : ∃ t, (Source.input "(let ((y 2*x )) y)").tree = .ok t ∧
      ∃ u ∈ t.nodes, u.IsEnclosable ∧ u.span = ⟨9, 13⟩ :=
    ⟨.node .program [.node .expr [.node .letForm [.token "(" ⟨0, 1⟩, .token "let" ⟨1, 4⟩,
        .token "(" ⟨5, 6⟩, .token "(" ⟨6, 7⟩, .token "y" ⟨7, 8⟩, .node .expr [
          .node (.chain .mul) [.node .numeral [.token "2" ⟨9, 10⟩] ⟨9, 10⟩, .token "*" ⟨10, 11⟩,
            .node .var [.token "x" ⟨11, 12⟩] ⟨11, 12⟩] ⟨9, 13⟩] ⟨9, 13⟩,
        .token ")" ⟨13, 14⟩, .token ")" ⟨14, 15⟩,
        .node .expr [.node .var [.token "y" ⟨16, 17⟩] ⟨16, 17⟩] ⟨16, 17⟩,
        .token ")" ⟨17, 18⟩] ⟨0, 18⟩] ⟨0, 18⟩] ⟨0, 18⟩,
      rfl, _, .tail _ (.tail _ (.tail _ (.tail _ (.head _)))), nofun, rfl⟩
  exact ⟨t, ht, u, hu, hne, hspan, enclosed ht (.inl hu) hne⟩

end Source

end ArithLine

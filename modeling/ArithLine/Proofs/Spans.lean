import ArithLine.Proofs.Grammar.Cover
import ArithLine.Proofs.Grammar.Unambiguous

/-!
# Losslessness and exact spans

A parse tree keeps every character of its line that is no blank, and says where.

* `Tree.leaves`, `Tree.nodes`: the leaves and the inner nodes of a tree, in order.
* `Span.Slices`: the bytes of a span are a given text, and characters end where it ends.
* `Tree.CoversChildren`: where a node starts and ends, from the spans of its children.

The leaves are the tokens that cover the line (`leaves_lower`), so what there is to say
of them is said of `Covers`. The nodes are those of a derivation (`coversChildren_lower`), and the
children of a node show whether it is a chain of just two operands.
-/

namespace ArithLine

namespace Tree

mutual

/-- The leaves of a tree, in order. -/
def leaves : Tree → List Tree
  | node _ ts _ => leavesAll ts
  | token s sp => [token s sp]
  | bad s sp => [bad s sp]

/-- The leaves of some trees, in order. -/
def leavesAll : List Tree → List Tree
  | [] => []
  | t :: ts => t.leaves ++ leavesAll ts

end

mutual

/-- The inner nodes of a tree, each before those below it. -/
def nodes : Tree → List Tree
  | node r ts s => node r ts s :: nodesAll ts
  | _ => []

/-- The inner nodes of some trees, each before those below it. -/
def nodesAll : List Tree → List Tree
  | [] => []
  | t :: ts => t.nodes ++ nodesAll ts

end

/-- Whether a rule and some children make a chain of just two operands. -/
def IsPair : Rule → List Tree → Prop
  | .chain o, ts => (operandsOf o ts).length = 2
  | _, _ => False

/-- A node starts where its first child starts and ends where its last child ends. A chain
of just two operands goes on over the blanks of the line that follow its last child. -/
def CoversChildren (line : List Char) : Tree → Prop
  | node r ts s => ∃ first last, ts.head? = some first ∧ ts.getLast? = some last ∧
      s.start = first.span.start ∧
      (IsPair r ts → s.stop = skipBlanks line last.span.stop) ∧
      (¬ IsPair r ts → s.stop = last.span.stop)
  | _ => True

@[simp] theorem leavesAll_append (ts us : List Tree) :
    leavesAll (ts ++ us) = leavesAll ts ++ leavesAll us := by
  induction ts with
  | nil => rfl
  | cons t ts ih => rw [List.cons_append, leavesAll, leavesAll, ih, List.append_assoc]

@[simp] theorem nodesAll_append (ts us : List Tree) :
    nodesAll (ts ++ us) = nodesAll ts ++ nodesAll us := by
  induction ts with
  | nil => rfl
  | cons t ts ih => rw [List.cons_append, nodesAll, nodesAll, ih, List.append_assoc]

mutual

/-- The text of a tree is that of its leaves. -/
theorem toList_text : ∀ t : Tree, t.text.toList = t.leaves.flatMap (·.text.toList)
  | node _ ts _ => by rw [text, leaves, toList_textAll ts]
  | token s sp => by simp [leaves, text]
  | bad s sp => by simp [leaves, text]

/-- The text of some trees is that of their leaves. -/
theorem toList_textAll : ∀ ts : List Tree,
    (textAll ts).toList = (leavesAll ts).flatMap (·.text.toList)
  | [] => rfl
  | t :: ts => by
    rw [textAll, leavesAll, String.toList_append, List.flatMap_append, toList_text t,
      toList_textAll ts]

end

end Tree

/-- The bytes of a line from the start of a span to its end are a text, and both ends are
boundaries between characters. -/
structure Span.Slices (sp : Span) (line text : String) : Prop where
  start : String.Pos.Raw.IsValid line ⟨sp.start⟩
  stop : String.Pos.Raw.IsValid line ⟨sp.stop⟩
  bytes : line.toByteArray.extract sp.start sp.stop = text.toByteArray

theorem Span.slices_of_eq_append {line : String} {before cs after : List Char}
    (h : line.toList = before ++ cs ++ after) :
    Span.Slices ⟨byteLength before, byteLength before + byteLength cs⟩ line (.ofList cs) := by
  obtain rfl : line = .ofList before ++ .ofList cs ++ .ofList after := by
    rw [← String.ofList_append, ← String.ofList_append, ← h, String.ofList_toList]
  rw [← utf8ByteSize_ofList, ← utf8ByteSize_ofList]
  constructor
  · exact String.Pos.Raw.isValid_iff_exists_append.2
      ⟨.ofList before, .ofList cs ++ .ofList after, String.append_assoc, rfl⟩
  · refine String.Pos.Raw.isValid_iff_exists_append.2
      ⟨.ofList before ++ .ofList cs, .ofList after, rfl, ?_⟩
    rw [← String.utf8ByteSize_append]
    rfl
  · have hdrop := ByteArray.extract_append_size_add (a := (String.ofList before).toByteArray)
      (b := (String.ofList cs).toByteArray ++ (String.ofList after).toByteArray) (i := 0)
      (j := (String.ofList cs).utf8ByteSize)
    rw [Nat.add_zero, String.size_toByteArray] at hdrop
    rw [String.append_assoc, String.toByteArray_append, String.toByteArray_append, hdrop]
    exact ByteArray.extract_append_eq_left String.size_toByteArray.symm

/-- A tree says where everything but the blanks of a line stands. -/
structure Tree.Lossless (line : String) (t : Tree) : Prop where
  /-- No leaf is empty, and each is the slice of the line at its span. -/
  slices : ∀ l ∈ t.leaves, l.text ≠ "" ∧ l.span.Slices line l.text
  /-- The leaves stand in order and do not overlap. -/
  ordered : t.leaves.Pairwise fun l m => l.span.stop ≤ m.span.start
  /-- A byte in no leaf is that of a space or a tab. -/
  outside : ∀ i, (_ : i < line.toByteArray.size) →
    (∀ l ∈ t.leaves, ¬ (l.span.start ≤ i ∧ i < l.span.stop)) →
    line.toByteArray[i] = ' '.toUInt8 ∨ line.toByteArray[i] = '\t'.toUInt8
  /-- The text of the tree is the line without its spaces and tabs. -/
  text : t.text = .ofList (line.toList.filter (!isBlank ·))
  /-- The root is a program that covers the line, and no node below it is one. Each of
  these covers its children. -/
  nodes : ∃ ts, t = .node .program ts ⟨0, line.utf8ByteSize⟩ ∧
    ∀ u ∈ Tree.nodesAll ts, u.rule? ≠ some .program ∧ u.CoversChildren line.toList

/-- The bytes of a text are those of its characters. -/
theorem getElem?_bytes (s : String) {i : ℕ} (hi : i < s.toByteArray.size) :
    (s.toList.flatMap String.utf8EncodeChar)[i]? = some s.toByteArray[i] := by
  obtain ⟨l, rfl⟩ := s.exists_eq_ofList
  simp [List.utf8Encode]

theorem length_flatMap_utf8EncodeChar (cs : List Char) :
    (cs.flatMap String.utf8EncodeChar).length = byteLength cs := by
  induction cs with
  | nil => rfl
  | cons c cs ih =>
    rw [List.flatMap_cons, List.length_append, String.length_utf8EncodeChar, ih, byteLength_cons]

/-! ## What tokens that cover a text leave out -/

namespace Covers

variable {n : ℕ} {ts : List Token} {cs : List Char}

/-- Every token stands where it says. -/
theorem exists_eq_append (h : Covers n ts cs) : ∀ t ∈ ts, ∃ before after,
    cs = before ++ t.lexeme.chars ++ after ∧ t.start = n + byteLength before ∧
      t.lexeme.chars ≠ [] := by
  intro t ht
  obtain ⟨us, vs, rfl⟩ := List.append_of_mem ht
  obtain ⟨before, after, rfl, hstart, -, hprec, -⟩ := h.split
  obtain ⟨c, r, hc, -⟩ := hprec.chars_eq
  exact ⟨before, after, by rw [List.append_assoc], hstart, by simp [hc]⟩

/-- Every token ends before the next one starts. -/
theorem pairwise (h : Covers n ts cs) : ts.Pairwise fun t u => t.stop ≤ u.start := by
  induction h with
  | done n => exact .nil
  | blank _ _ ih => exact ih
  | token _ hr ih => exact .cons (fun u hu => hr.le_start u hu) ih

/-- The tokens are the text without its blanks. -/
theorem flatMap_chars (h : Covers n ts cs) :
    ts.flatMap (·.lexeme.chars) = cs.filter (!isBlank ·) := by
  induction h with
  | done n => rfl
  | blank hb _ ih => rw [ih, List.filter_cons_of_neg (by simp [hb])]
  | token hl _ ih =>
    rw [List.flatMap_cons, ih, List.filter_append, List.filter_eq_self (l := Lexeme.chars _) |>.2]
    exact fun c hc => by simp [hl.isBlank_eq_false c hc]

/-- A byte in no token is that of a blank. -/
theorem isBlank_byte (h : Covers n ts cs) {i : ℕ} {b : UInt8}
    (hb : (cs.flatMap String.utf8EncodeChar)[i]? = some b)
    (hout : ∀ t ∈ ts, ¬ (t.start ≤ n + i ∧ n + i < t.stop)) :
    b = ' '.toUInt8 ∨ b = '\t'.toUInt8 := by
  induction h generalizing i with
  | done n => simp at hb
  | @blank n c ts cs hc _ ih =>
    have hbyte : c.utf8Size = 1 ∧ String.utf8EncodeChar c = [c.toUInt8] ∧
        (c.toUInt8 = ' '.toUInt8 ∨ c.toUInt8 = '\t'.toUInt8) := by
      simp only [isBlank, Bool.or_eq_true, beq_iff_eq] at hc
      rcases hc with rfl | rfl <;> decide
    rw [List.flatMap_cons, hbyte.2.1, List.singleton_append] at hb
    -- a blank is one byte, which is this one or before it
    cases i with
    | zero =>
      obtain rfl := Option.some.inj hb
      exact hbyte.2.2
    | succ i =>
      refine ih hb fun t ht => ?_
      rw [hbyte.1, Nat.add_assoc, Nat.add_comm 1]
      exact hout t ht
  | @token n l ts cs hl _ ih =>
    -- the byte is after this token, so it is a byte of what follows
    have hlen := length_flatMap_utf8EncodeChar l.chars
    rw [List.forall_mem_cons] at hout
    have hle : byteLength l.chars ≤ i := by
      have := hout.1
      simp only [Token.stop] at this
      omega
    rw [List.flatMap_append, List.getElem?_append_right (by omega), hlen] at hb
    refine ih hb fun t ht => ?_
    rw [Nat.add_assoc, Nat.add_sub_cancel' hle]
    exact hout.2 t ht

end Covers

/-! ## Leaves and nodes of a derivation -/

namespace Grammar.Derivation

variable {line : List Char}

mutual

/-- The leaves of a derivation's parse trees are its tokens. -/
theorem leaves_lower (line : List Char) : ∀ d : Derivation,
    (Tree.leavesAll (d.lower line)).map (fun l => (l.text, l.span)) =
      d.yield.map fun t => (t.text, t.span)
  | leaf k t => by
    rw [lower]
    split <;> rfl
  | node (.layer _) ds => leaves_lowerAll line ds
  | node (.rule r) ds => by
    rw [lower, Tree.leavesAll, Tree.leavesAll, Tree.leaves, List.append_nil, leaves_lowerAll line ds,
      yield]

/-- The leaves of the parse trees of some derivations are their tokens. -/
theorem leaves_lowerAll (line : List Char) : ∀ ds : List Derivation,
    (Tree.leavesAll (lowerAll line ds)).map (fun l => (l.text, l.span)) =
      (yieldAll ds).map fun t => (t.text, t.span)
  | [] => rfl
  | d :: ds => by
    rw [lowerAll, yieldAll, Tree.leavesAll_append, List.map_append, List.map_append,
      leaves_lower line d, leaves_lowerAll line ds]

end

variable {d : Derivation} {t : Tree}

/-- Each leaf of a tree has the text and the span of a token. -/
theorem exists_token_of_mem_leaves (h : d.lower line = [t]) :
    ∀ l ∈ t.leaves, ∃ u ∈ d.yield, u.text = l.text ∧ u.span = l.span := by
  intro l hl
  have hleaves := leaves_lower line d
  rw [h, Tree.leavesAll, Tree.leavesAll, List.append_nil] at hleaves
  have hmem := hleaves ▸ List.mem_map_of_mem hl
  simpa [List.mem_map] using hmem

/-- Each token has the text and the span of a leaf of the tree. -/
theorem exists_leaf_of_mem_yield (h : d.lower line = [t]) :
    ∀ u ∈ d.yield, ∃ l ∈ t.leaves, l.text = u.text ∧ l.span = u.span := by
  intro u hu
  have hleaves := leaves_lower line d
  rw [h, Tree.leavesAll, Tree.leavesAll, List.append_nil] at hleaves
  have hmem := hleaves.symm ▸ List.mem_map_of_mem hu
  simpa [List.mem_map] using hmem

theorem Valid.lower_ne_nil {d : Derivation} (hd : d.Valid) : d.lower line ≠ [] := by
  intro h
  have := leaves_lower line d
  rw [h] at this
  exact hd.yield_ne_nil (List.map_eq_nil_iff.1 this.symm)

theorem lowerAll_ne_nil (line : List Char) {n : Nonterminal} {ds : List Derivation}
    (hw : ds.map symbol ∈ (body n).matches') (hv : ∀ d ∈ ds, d.Valid) : lowerAll line ds ≠ [] := by
  cases ds with
  | nil => exact absurd rfl (word_of_body hw).1
  | cons d ds =>
    rw [lowerAll]
    exact List.append_ne_nil_of_left_ne_nil (hv d List.mem_cons_self).lower_ne_nil _

/-- A chain has just two operands if it has three parts. -/
theorem isPair_iff (line : List Char) {r : Rule} {ds : List Derivation}
    (hw : ds.map symbol ∈ (body (.rule r)).matches')
    (hv : ∀ d ∈ ds, d.Valid) :
    Tree.IsPair r (lowerAll line ds) ↔ (∃ o, r = .chain o) ∧ ds.length = 3 := by
  cases r with
  | chain o =>
    obtain ⟨k, hk⟩ := mem_body_chain.1 hw
    have hds := valid_parts_iff.2 ⟨hk, hv⟩
    have hlen := length_operandsOf line hds
    obtain ⟨e, es, -, hes, rfl⟩ := List.forall₂_cons_left_iff.1 hds
    have hparts := length_links hes
    rw [Tree.IsPair, hlen, List.length_cons, hparts]
    constructor
    · intro hk
      exact ⟨⟨o, rfl⟩, by omega⟩
    · rintro ⟨-, hk⟩
      omega
  | _ => simp [Tree.IsPair]

theorem coversChildren_node {r : Rule} {ds : List Derivation}
    (hw : ds.map symbol ∈ (body (.rule r)).matches') (hv : ∀ d ∈ ds, d.Valid) (hr : r ≠ .program) :
    (Tree.node r (lowerAll line ds) (extent line r ds.length (lowerAll line ds))).CoversChildren
      line := by
  have hne := lowerAll_ne_nil line hw hv
  have hpair := isPair_iff line hw hv
  have hhead := List.head?_eq_some_head hne
  have hlast := List.getLast?_eq_some_getLast hne
  refine ⟨_, _, hhead, hlast, ?_⟩
  have hext : Tree.extent (lowerAll line ds) =
      ⟨((lowerAll line ds).head hne).span.start, ((lowerAll line ds).getLast hne).span.stop⟩ := by
    rw [Tree.extent, hhead, hlast]
    rfl
  cases r with
  | program => exact absurd rfl hr
  | chain o =>
    rw [hpair]
    simp only [extent, hext]
    split <;> simp_all
  | _ => simp [extent, hext, Tree.IsPair]

theorem mem_nodesAll_lowerAll {ds : List Derivation} {u : Tree} :
    u ∈ Tree.nodesAll (lowerAll line ds) ↔ ∃ d ∈ ds, u ∈ Tree.nodesAll (d.lower line) := by
  induction ds with
  | nil => simp [lowerAll, Tree.nodesAll]
  | cons d ds ih => simp [lowerAll, ih]

/-- **Every node of a derivation covers its children.** -/
theorem coversChildren_lower {d : Derivation} (hd : d.Valid) (hp : d.symbol ≠ .rule .program) :
    ∀ u ∈ Tree.nodesAll (d.lower line), u.rule? ≠ some .program ∧ u.CoversChildren line := by
  induction hd with
  | @leaf k t _ =>
    rw [lower]
    split <;> simp [Tree.nodesAll, Tree.nodes, Token.leaf]
  | @node n ds hw hv ih =>
    -- a program is no part of anything, so the induction hypothesis is there for every part
    have hparts : ∀ u ∈ Tree.nodesAll (lowerAll line ds),
        u.rule? ≠ some .program ∧ u.CoversChildren line := by
      intro u hu
      obtain ⟨d, hd, hu⟩ := mem_nodesAll_lowerAll.1 hu
      exact ih d hd (fun h => (word_of_body hw).2 (h ▸ List.mem_map_of_mem hd)) u hu
    cases n with
    | layer l => exact hparts
    | rule r =>
      have hr : r ≠ .program := fun h => hp (by rw [h]; rfl)
      rw [lower, Tree.nodesAll, Tree.nodesAll, Tree.nodes, List.append_nil, List.forall_mem_cons]
      exact ⟨⟨by simpa [Tree.rule?] using hr, coversChildren_node hw hv hr⟩, hparts⟩

end Grammar.Derivation

open Grammar Derivation

/-- The text of a line's tree is the line without its blanks. -/
theorem text_eq_of_ofLine {line : String} {t : Tree} (h : Tree.ofLine line = .ok t) :
    t.text = .ofList (line.toList.filter (!isBlank ·)) := by
  obtain ⟨d, hd, hlow⟩ := exists_derives_of_ofLine h
  have hleaves := leaves_lower line.toList d
  rw [hlow, Tree.leavesAll, Tree.leavesAll, List.append_nil] at hleaves
  have htexts : t.leaves.map Tree.text = d.yield.map Token.text := by
    simpa [Function.comp_def] using congrArg (List.map Prod.fst) hleaves
  have hchars := congrArg (List.flatMap String.toList) htexts
  rw [← String.toList_inj, Tree.toList_text, String.toList_ofList, ← hd.covers.flatMap_chars]
  simpa [List.flatMap_map, Token.text] using hchars

/-- **A parse tree loses nothing but blanks.** -/
theorem Source.tree_lossless {s : Source} {t : Tree} (h : s.tree = .ok t) :
    t.Lossless s.content := by
  obtain ⟨d, hd, hlow⟩ := exists_derives_of_ofLine (Source.tree_eq_ok_iff.1 h)
  have hcov := hd.covers
  have hleaves := leaves_lower s.content.toList d
  rw [hlow, Tree.leavesAll, Tree.leavesAll, List.append_nil] at hleaves
  have hleaf := exists_token_of_mem_leaves hlow
  have htoken := exists_leaf_of_mem_yield hlow
  refine ⟨?_, ?_, ?_, ?_, ?_⟩
  · intro l hl
    obtain ⟨u, hu, htext, hspan⟩ := hleaf l hl
    obtain ⟨before, after, hline, hstart, hne⟩ := hcov.exists_eq_append u hu
    rw [← htext, ← hspan]
    refine ⟨fun h => hne (String.ofList_eq_empty_iff.1 h), ?_⟩
    have := Span.slices_of_eq_append hline
    rwa [← Nat.zero_add (byteLength before), ← hstart] at this
  · have hspans : t.leaves.map Tree.span = d.yield.map Token.span := by
      simpa [Function.comp_def] using congrArg (List.map Prod.snd) hleaves
    have hpair : (d.yield.map Token.span).Pairwise fun a b => a.stop ≤ b.start :=
      List.pairwise_map.2 hcov.pairwise
    exact List.pairwise_map.1 (hspans ▸ hpair)
  · intro i hi hout
    refine hcov.isBlank_byte (getElem?_bytes s.content hi) fun u hu hin => ?_
    obtain ⟨l, hl, -, hspan⟩ := htoken u hu
    rw [Nat.zero_add] at hin
    exact hout l hl (hspan ▸ hin)
  · exact text_eq_of_ofLine (Source.tree_eq_ok_iff.1 h)
  · obtain ⟨e, he, rfl⟩ := of_program_iff.1 ⟨hd.symbol, hd.valid⟩
    obtain rfl := List.singleton_inj.1 hlow
    refine ⟨_, by rw [utf8ByteSize_eq]; rfl, fun u hu => ?_⟩
    rw [lowerAll_singleton] at hu
    exact coversChildren_lower he.valid (by rw [he.symbol]; simp) u hu

theorem Source.tree_lossless_pair : ∃ t,
    (Source.input "(é*2)\t+ 1 ").tree = .ok t ∧ t.Lossless "(é*2)\t+ 1 " := by
  obtain ⟨t, ht⟩ : ∃ t, (Source.input "(é*2)\t+ 1 ").tree = .ok t := ⟨_, rfl⟩
  exact ⟨t, ht, Source.tree_lossless ht⟩

end ArithLine

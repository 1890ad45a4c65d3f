import ArithLine.Proofs.Operand
import ArithLine.Proofs.Walk

/-!
# What a conversion looks at

Of a tree, a conversion sees the skeleton: no spans, no punctuation, nothing inside a let form or a
nested program, and of a variable's node the text of its first child.

* `Tree.skeleton`: what is left of a tree.
* `Tree.expr?_skeleton`, `Tree.diagnostics_skeleton`: that is enough to tell what the tree means and
  what is reported about it, up to spans.
* `Tree.converts_by_skeleton`: trees with one skeleton are converted alike, and a tree that stands
  elsewhere is converted as before, but for the spans of its diagnostics.
-/

namespace ArithLine

namespace Tree

/-- The tokens that only hold a text together. -/
def punctuation : List String := ["(", ")", "+", "-", "*", "/"]

/-- Whether a tree is a token that only holds a text together. A bad word never is. -/
def isPunctuation : Tree → Bool
  | token s _ => punctuation.contains s
  | _ => false

mutual

/-- A tree without spans, without the punctuation in its expressions and chains, with nothing in
its let forms and nested programs, and with only the text of a name in the node of a variable. -/
def skeleton : Tree → Tree
  | node r ts _ =>
    match r with
    | .letForm | .program => node r [] .zero
    | .var => node r (ts.head?.map fun t => token t.text .zero).toList .zero
    | .expr | .numeral | .chain _ => node r (skeletons ts) .zero
  | token s _ => token s .zero
  | bad s _ => bad s .zero

/-- The skeletons of the trees that are no punctuation. -/
def skeletons : List Tree → List Tree
  | [] => []
  | t :: ts => if t.isPunctuation then skeletons ts else t.skeleton :: skeletons ts

end

/-- Whether two trees are converted to the same, with the same diagnostics up to spans. -/
structure ConvertsLike (t u : Tree) : Prop where
  result : (t.convert .journal {}).1 = (u.convert .journal {}).1
  diagnostics : (t.convert .journal {}).2.entries.map Diagnostic.bare =
    (u.convert .journal {}).2.entries.map Diagnostic.bare

/-! ## Punctuation -/

theorem isGlyph_eq (s : String) : isGlyph s = punctuation.contains s := by
  have hglyphs : ∀ s ∈ punctuation, isGlyph s := by decide
  rw [Bool.eq_iff_iff, List.contains_iff_mem]
  refine ⟨fun hs => ?_, hglyphs s⟩
  unfold isGlyph at hs
  split at hs
  · rename_i c hc
    obtain ⟨g, hg⟩ := Option.isSome_iff_exists.1 hs
    obtain rfl : s = .ofList [g.char] := by
      rw [Glyph.char_of_ofChar? hg, ← hc, String.ofList_toList]
    rcases g with _ | _ | (_ | _ | _ | _) <;> decide
  · cases hs

variable {t : Tree}

theorem expr?_of_isPunctuation (h : t.isPunctuation) : t.expr? = none := by
  cases t with
  | token s sp => rw [expr?, isGlyph_eq, if_pos (show punctuation.contains s from h)]
  | node => cases h
  | bad => cases h

theorem notes_of_isPunctuation (h : t.isPunctuation) : t.notes = [] := by
  cases t with
  | token s sp =>
    rw [notes, isGlyph_eq, show punctuation.contains s from h]
    rfl
  | node => cases h
  | bad => cases h

/-! ## Converting a skeleton -/

mutual

/-- A tree means what its skeleton means. -/
theorem expr?_skeleton : ∀ t : Tree, t.skeleton.expr? = t.expr?
  | node r ts _ => by
    have hexprs := exprs_skeletons ts
    cases r with
    | var => cases ts <;> rfl
    | letForm => rfl
    | program => rfl
    | expr => rw [skeleton, expr?, expr?, hexprs]
    | numeral => rw [skeleton, expr?, expr?, hexprs]
    | chain o => rw [skeleton, expr?, expr?, hexprs]
  | token _ _ => rfl
  | bad _ _ => rfl

theorem exprs_skeletons : ∀ ts : List Tree, exprs (skeletons ts) = exprs ts
  | [] => rfl
  | t :: ts => by
    rw [skeletons, exprs]
    split
    · next ht =>
      -- what is left out means nothing
      rw [exprs_skeletons ts, expr?_of_isPunctuation ht, Option.toList_none, List.nil_append]
    · rw [exprs, expr?_skeleton t, exprs_skeletons ts]

end

/-- The diagnostics of the conversion of some trees. -/
def diagnosticsAll (ts : List Tree) : List Diagnostic := (notesAll ts).filterMap Note.diagnostic?

theorem diagnosticsAll_cons (t : Tree) (ts : List Tree) :
    diagnosticsAll (t :: ts) = t.diagnostics ++ diagnosticsAll ts := by
  rw [diagnosticsAll, notesAll, List.filterMap_append]
  rfl

mutual

/-- What is reported about a tree is what is reported about its skeleton, up to spans. -/
theorem diagnostics_skeleton : ∀ t : Tree,
    t.skeleton.diagnostics = t.diagnostics.map Diagnostic.bare
  | node r ts _ => by
    have hall := diagnosticsAll_skeletons ts
    cases r with
    | var => cases ts <;> rfl
    | letForm => rfl
    | program => rfl
    | expr => exact hall
    | numeral => exact hall
    | chain o => exact hall
  | token s sp => by
    rw [skeleton, diagnostics, diagnostics, notes, notes]
    split <;> rfl
  | bad _ _ => rfl

theorem diagnosticsAll_skeletons : ∀ ts : List Tree,
    diagnosticsAll (skeletons ts) = (diagnosticsAll ts).map Diagnostic.bare
  | [] => rfl
  | t :: ts => by
    rw [skeletons, diagnosticsAll_cons]
    split
    · next ht =>
      rw [diagnosticsAll_skeletons ts, diagnostics, notes_of_isPunctuation ht]
      rfl
    · rw [diagnosticsAll_cons, diagnostics_skeleton t, diagnosticsAll_skeletons ts, List.map_append]

end

/-! ## Walking over a tree -/

/-- **A conversion depends on the skeleton of a tree only**, and its diagnostics stand where the
spans of the tree say. -/
theorem converts_by_skeleton :
    (∀ t u : Tree, t.skeleton = u.skeleton → t.ConvertsLike u) ∧
    ∀ (f : Span → Span) (t : Tree),
      ((t.mapSpans f).convert .journal {}).1 = (t.convert .journal {}).1 ∧
      ((t.mapSpans f).convert .journal {}).2.entries =
        (t.convert .journal {}).2.entries.map (Diagnostic.mapSpan f) := by
  simp only [convert_journal]
  constructor
  · intro t u h
    have hresult : t.expr? = u.expr? := by rw [← expr?_skeleton, h, expr?_skeleton]
    have hdiagnostics : t.diagnostics.map Diagnostic.bare = u.diagnostics.map Diagnostic.bare := by
      rw [← diagnostics_skeleton, h, diagnostics_skeleton]
    constructor
    · rw [convert_journal, convert_journal, hresult]
    · rw [convert_journal, convert_journal]
      exact hdiagnostics
  · intro f t
    exact ⟨expr?_mapSpans f t, diagnostics_mapSpans f t⟩

/-- Two sums with one skeleton, written differently in every way that a skeleton allows. -/
theorem converts_by_skeleton_sums :
    let t : Tree := node (.chain .add) [
      token "(" ⟨0, 1⟩,
      node .var [node .numeral [token "x" ⟨1, 2⟩, token ")" ⟨2, 3⟩] ⟨1, 3⟩, bad "y" ⟨3, 4⟩] ⟨1, 4⟩,
      node .letForm [token "let" ⟨4, 7⟩] ⟨4, 7⟩,
      node .expr [token "+" ⟨7, 8⟩] ⟨7, 8⟩,
      token "9x" ⟨8, 10⟩,
      bad "(" ⟨10, 11⟩,
      node .program [token "1" ⟨11, 12⟩] ⟨11, 12⟩] ⟨0, 12⟩
    let u : Tree := node (.chain .add) [
      node .var [token "x)" ⟨0, 2⟩] ⟨0, 2⟩,
      node .letForm [] ⟨2, 2⟩,
      token "*" ⟨2, 3⟩,
      node .expr [] ⟨3, 3⟩,
      token "9x" ⟨3, 5⟩,
      bad "(" ⟨5, 6⟩,
      node .program [bad "1" ⟨6, 7⟩, token "/" ⟨7, 8⟩] ⟨6, 8⟩] ⟨0, 8⟩
    t.skeleton = u.skeleton ∧ t.ConvertsLike u ∧
      (t.convert .journal {}).1 = some (.chain .add [.var "x)", .error, .error]) := by
  intro t u
  have h : t.skeleton = u.skeleton := by rfl
  have hresult : t.expr? = some (.chain .add [.var "x)", .error, .error]) := by rfl
  refine ⟨h, converts_by_skeleton.1 t u h, ?_⟩
  rw [convert_journal, hresult]

end Tree

end ArithLine

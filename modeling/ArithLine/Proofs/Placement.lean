import ArithLine.Meaning

/-!
# Where a tree stands

The spans in a tree say where its parts stand, and nothing else depends on them.

* `Tree.mapSpans`: a tree that stands elsewhere.
* `Tree.text_mapSpans`, `Tree.expr?_mapSpans`: it has the same text and means the same.
* `Tree.notes_mapSpans`, `Tree.diagnostics_mapSpans`: what there is to say about it is the same, but
  for the spans in it.
-/

namespace ArithLine

/-- A diagnostic with another span. -/
def Diagnostic.mapSpan (f : Span → Span) : Diagnostic → Diagnostic
  | unhandledRule r sp => unhandledRule r (f sp)
  | illegalTerminal s sp => illegalTerminal s (f sp)
  | badWord s sp => badWord s (f sp)

/-- A note with another span. -/
def Note.mapSpan (f : Span → Span) : Note → Note
  | visited r n => visited r n
  | reported d => reported (d.mapSpan f)

namespace Tree

mutual

/-- A tree with other spans. -/
def mapSpans (f : Span → Span) : Tree → Tree
  | node r ts sp => node r (mapSpansAll f ts) (f sp)
  | token s sp => token s (f sp)
  | bad s sp => bad s (f sp)

/-- Some trees with other spans. -/
def mapSpansAll (f : Span → Span) : List Tree → List Tree
  | [] => []
  | t :: ts => t.mapSpans f :: mapSpansAll f ts

end

theorem mapSpansAll_eq (f : Span → Span) (ts : List Tree) :
    mapSpansAll f ts = ts.map (mapSpans f) := by
  induction ts with
  | nil => rfl
  | cons t ts ih => rw [mapSpansAll, ih, List.map_cons]

mutual

theorem text_mapSpans (f : Span → Span) : ∀ t : Tree, (t.mapSpans f).text = t.text
  | node _ ts _ => textAll_mapSpans f ts
  | token _ _ => rfl
  | bad _ _ => rfl

theorem textAll_mapSpans (f : Span → Span) : ∀ ts : List Tree,
    textAll (mapSpansAll f ts) = textAll ts
  | [] => rfl
  | t :: ts => by rw [mapSpansAll, textAll, textAll, text_mapSpans f t, textAll_mapSpans f ts]

end

mutual

/-- What a tree means does not depend on its spans. -/
theorem expr?_mapSpans (f : Span → Span) : ∀ t : Tree, (t.mapSpans f).expr? = t.expr?
  | node r ts _ => by
    have hexprs := exprs_mapSpans f ts
    cases r with
    | var => cases ts <;> simp [mapSpans, mapSpansAll, expr?, text_mapSpans]
    | _ => simp [mapSpans, expr?, hexprs]
  | token _ _ => rfl
  | bad _ _ => rfl

theorem exprs_mapSpans (f : Span → Span) : ∀ ts : List Tree, exprs (mapSpansAll f ts) = exprs ts
  | [] => rfl
  | t :: ts => by rw [mapSpansAll, exprs, exprs, expr?_mapSpans f t, exprs_mapSpans f ts]

end

mutual

/-- **What there is to say about a tree** does not depend on its spans, but for the spans in it. -/
theorem notes_mapSpans (f : Span → Span) : ∀ t : Tree,
    (t.mapSpans f).notes = t.notes.map (Note.mapSpan f)
  | node r ts sp => by
    have hlen : (mapSpansAll f ts).length = ts.length := by rw [mapSpansAll_eq, List.length_map]
    have hall := notesAll_mapSpans f ts
    cases r with
    | var => cases ts <;> simp_all [mapSpans, mapSpansAll, notes, Note.mapSpan, Diagnostic.mapSpan]
    | letForm => simp [mapSpans, notes, Note.mapSpan, Diagnostic.mapSpan, hlen]
    | program => simp [mapSpans, notes, Note.mapSpan, Diagnostic.mapSpan, hlen]
    | _ => simp [mapSpans, notes, Note.mapSpan, hlen, hall]
  | token s sp => by
    rw [mapSpans, notes, notes]
    split <;> rfl
  | bad _ _ => rfl

theorem notesAll_mapSpans (f : Span → Span) : ∀ ts : List Tree,
    notesAll (mapSpansAll f ts) = (notesAll ts).map (Note.mapSpan f)
  | [] => rfl
  | t :: ts => by
    rw [mapSpansAll, notesAll, notesAll, List.map_append, notes_mapSpans f t,
      notesAll_mapSpans f ts]

end

theorem filterMap_diagnostic?_map (f : Span → Span) (ns : List Note) :
    (ns.map (Note.mapSpan f)).filterMap Note.diagnostic? =
      (ns.filterMap Note.diagnostic?).map (Diagnostic.mapSpan f) := by
  rw [List.filterMap_map, List.map_filterMap]
  congr 1
  funext n
  cases n <;> rfl

theorem diagnostics_mapSpans (f : Span → Span) (t : Tree) :
    (t.mapSpans f).diagnostics = t.diagnostics.map (Diagnostic.mapSpan f) := by
  rw [diagnostics, notes_mapSpans, filterMap_diagnostic?_map]
  rfl

end Tree

end ArithLine

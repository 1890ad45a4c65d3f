import ArithLine.Proofs.Presentation
import ArithLine.Proofs.Walk
import ArithLine.Screen

/-!
# Printing is presenting

What is printed of a source is its presentation, segment by segment, whatever the screen makes of
them. So the screen has no part in whether a source fails, and the two kinds of screen end up with
the two renderings of one output.

* `Screen.draw`: a screen that some segments are printed on.
* `Tree.printOn_eq`, `Diagnostic.printOn_eq`, `Program.printOn_eq`: what each printer prints.
* `Source.printOn_eq`: so the whole is the presentation, on every screen.
* `Source.output_of_parts`: what holds of the parts of an output.
* `Screen.draw_coloured`, `Screen.draw_monochrome`: the two kinds of screen.
-/

namespace ArithLine

variable {σ : Type}

namespace Screen

/-- Prints a segment. -/
def put (k : Screen σ) : Segment → σ → σ
  | .text x => k.write x
  | .paint st => k.paint st
  | .reset => k.reset

/-- Prints some segments in order. -/
def draw (k : Screen σ) (ss : List Segment) (out : σ) : σ := ss.foldl (fun out s => k.put s out) out

variable {k : Screen σ} {out : σ}

@[simp] theorem draw_nil : k.draw [] out = out := rfl

@[simp] theorem draw_cons (s : Segment) (ss : List Segment) :
    k.draw (s :: ss) out = k.draw ss (k.put s out) := rfl

@[simp] theorem draw_append (ss us : List Segment) :
    k.draw (ss ++ us) out = k.draw us (k.draw ss out) := List.foldl_append

/-- With colours, the escapes of the segments are put behind what there is. -/
theorem draw_coloured (ss : List Segment) (out : String) :
    coloured.draw ss out = out ++ Segment.render true ss := by
  induction ss generalizing out with
  | nil => simp [Segment.render]
  | cons s ss ih =>
    have hput : coloured.put s out = out ++ s.escaped := by cases s <;> rfl
    rw [draw_cons, ih, hput, String.append_assoc]
    simp [Segment.render]

/-- Without them, the text alone is. -/
theorem draw_monochrome (ss : List Segment) (out : String) :
    monochrome.draw ss out = out ++ Segment.render false ss := by
  induction ss generalizing out with
  | nil => simp [Segment.render]
  | cons s ss ih =>
    have hput : monochrome.put s out = out ++ s.plain := by
      cases s <;> simp [put, monochrome, Segment.plain]
    rw [draw_cons, ih, hput, String.append_assoc]
    simp [Segment.render]

end Screen

theorem Tree.printOn_eq (k : Screen σ) (t : Tree) (out : σ) :
    t.printOn k out = k.draw t.segments out := rfl

theorem Diagnostic.printOn_eq (k : Screen σ) (d : Diagnostic) (out : σ) :
    d.printOn k out = k.draw d.segments out := rfl

theorem Program.printOn_eq (k : Screen σ) (f : Format) (p : Program) (out : σ) :
    p.printOn k f out = k.draw (p.segments f) out := rfl

theorem Journal.printOn_eq (k : Screen σ) (j : Journal) (out : σ) :
    j.printOn k out = k.draw (j.entries.flatMap Diagnostic.segments) out := by
  have hall : ∀ (ds : List Diagnostic) (out : σ), ds.foldl (fun out d => d.printOn k out) out =
      k.draw (ds.flatMap Diagnostic.segments) out := by
    intro ds
    induction ds with
    | nil => exact fun _ => rfl
    | cons d ds ih =>
      intro out
      rw [List.foldl_cons, List.flatMap_cons, Screen.draw_append, ih, Diagnostic.printOn_eq]
  exact hall j.entries out

namespace Source

/-- Diagnostics are printed if they belong into the output, and the program does not depend on
where they go. -/
theorem buildOn_eq (k : Screen σ) (src : Source) (m : DiagnosticMode) (t : Tree) (out : σ) :
    src.buildOn k m t out = (src.programOf t,
      k.draw ((m.printed t.programDiagnostics).flatMap Diagnostic.segments) out) := by
  cases m with
  | print =>
    rw [buildOn, build_journal]
    exact congrArg _ (Journal.printOn_eq k _ out)
  | log =>
    rw [buildOn, build_eq]
    rfl

/-- **What is printed of a source is its presentation**, on every screen, and it fails just if that
does. -/
theorem printOn_eq (k : Screen σ) (src : Source) (o : Options) (out : σ) :
    src.printOn k o out =
      (match (src.present o).failure with
        | none => .ok ()
        | some f => .error f, k.draw (src.present o).output out) := by
  unfold printOn present
  cases src.tree with
  | error f => rfl
  | ok t =>
    -- without a label there is nothing to draw
    have htree : (if o.tree then t.printOn k out else out) =
        k.draw (if o.tree then t.segments else []) out := by
      split
      · exact Tree.printOn_eq k t out
      · rfl
    dsimp only
    rw [htree, buildOn_eq, presentTree]
    cases src.programOf t with
    | ok p =>
      dsimp only
      rw [Program.printOn_eq, Screen.draw_append, Screen.draw_append]
    | error f =>
      dsimp only
      rw [Screen.draw_append]

/-- What holds of the parts of an output holds of all of it: of the tree, of the warnings, and of
the program. -/
theorem output_of_parts {Q : List Segment → Prop} (hnil : Q [])
    (happend : ∀ {ss us : List Segment}, Q ss → Q us → Q (ss ++ us)) {src : Source} {o : Options}
    (htree : ∀ t, src.tree = .ok t → Q t.segments)
    (hwarning : ∀ t, src.tree = .ok t → ∀ d ∈ t.programDiagnostics, Q d.segments)
    (hprogram : ∀ p : Program, Q (p.segments o.format)) : Q (src.present o).output := by
  rw [present]
  cases h : src.tree with
  | error f => exact hnil
  | ok t =>
    have hshown : Q (if o.tree then t.segments else []) := by
      split
      · exact htree t h
      · exact hnil
    have hall : ∀ ds : List Diagnostic, (∀ d ∈ ds, Q d.segments) →
        Q (ds.flatMap Diagnostic.segments) := by
      intro ds hds
      induction ds with
      | nil => exact hnil
      | cons d ds ih =>
        rw [List.forall_mem_cons] at hds
        exact happend hds.1 (ih hds.2)
    have hwarned : Q ((o.diagnostics.printed t.programDiagnostics).flatMap
        Diagnostic.segments) := by
      cases o.diagnostics with
      | print => exact hall _ (hwarning t h)
      | log => exact hnil
    dsimp only
    rw [presentTree]
    cases src.programOf t with
    | ok p => exact happend (happend hshown hwarned) (hprogram p)
    | error f => exact happend hshown hwarned

end Source

end ArithLine

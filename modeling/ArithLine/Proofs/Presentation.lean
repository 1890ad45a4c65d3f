import ArithLine.Proofs.Outcome
import ArithLine.Proofs.Prompt

/-!
# Presenting a source and reading it

What is presented of a source is what reading it gives, wherever its diagnostics go.

* `Segment.render_append`, `Segment.render_styled`: styled output is written part by part.
* `Tree.render_segments`, `Diagnostic.render_segments`, `Program.render_segments`: the entries that
  an output is made of.
* `Event.filter_warn`: of the notes of a conversion, the diagnostics are the warnings.
* `Source.presentsReading`: the two places for diagnostics differ in nothing but the diagnostics.
-/

namespace ArithLine

namespace Segment

theorem render_append (coloured : Bool) (ss us : List Segment) :
    render coloured (ss ++ us) = render coloured ss ++ render coloured us := by
  rw [render, render, render, List.map_append, String.join_append]

theorem render_flatMap {α : Type} (coloured : Bool) (f : α → List Segment) (as : List α) :
    render coloured (as.flatMap f) = String.join (as.map fun a => render coloured (f a)) := by
  induction as with
  | nil => rfl
  | cons a as ih => rw [List.flatMap_cons, render_append, ih, List.map_cons, String.join_cons]

end Segment

/-! ## The entries of an output -/

/-- A text in a style: on a terminal between two escapes, elsewhere alone. -/
def Style.apply (coloured : Bool) (st : Style) (x : String) : String :=
  if coloured then (Segment.paint st).escaped ++ x ++ Segment.reset.escaped else x

theorem Segment.render_styled (coloured : Bool) (st : Style) (x : String) :
    render coloured [.paint st, .text x, .reset] = st.apply coloured x := by
  cases coloured with
  | true => simp [render, Style.apply, escaped, String.append_assoc]
  | false => simp [render, Style.apply, plain]

/-- The line that shows a tree. -/
def Tree.entry (coloured : Bool) (t : Tree) : String :=
  Style.apply coloured ⟨.cyan, false⟩ "parse tree:" ++ " " ++ t.dump ++ "\n"

/-- The line that warns of a diagnostic. -/
def Diagnostic.entry (coloured : Bool) (d : Diagnostic) : String :=
  Style.apply coloured ⟨.yellow, true⟩ "warning" ++ " [at " ++ Numeral.ofNat d.span.start ++ "-" ++
    Numeral.ofNat d.span.stop ++ "]: " ++ d.message ++ "\n"

/-- The lines that show a program. -/
def Program.entry (coloured : Bool) (f : Format) (p : Program) : String :=
  Style.apply coloured ⟨.green, true⟩ (p.format f ++ "\n")

theorem Segment.render_text (coloured : Bool) (x : String) : render coloured [.text x] = x := by
  cases coloured <;> simp [render, escaped, plain]

theorem Tree.render_segments (coloured : Bool) (t : Tree) :
    Segment.render coloured t.segments = t.entry coloured := by
  have hparts : t.segments = [.paint ⟨.cyan, false⟩, .text "parse tree:", .reset] ++
      [.text (" " ++ t.dump ++ "\n")] := rfl
  rw [hparts, Segment.render_append, Segment.render_styled, Segment.render_text, entry]
  simp only [String.append_assoc]

theorem Diagnostic.render_segments (coloured : Bool) (d : Diagnostic) :
    Segment.render coloured d.segments = d.entry coloured := by
  have hparts : d.segments = [.paint ⟨.yellow, true⟩, .text "warning", .reset] ++
      [.text (" [at " ++ Numeral.ofNat d.span.start ++ "-" ++ Numeral.ofNat d.span.stop ++ "]: " ++
        d.message ++ "\n")] := rfl
  rw [hparts, Segment.render_append, Segment.render_styled, Segment.render_text, entry]
  simp only [String.append_assoc]

theorem Program.render_segments (coloured : Bool) (f : Format) (p : Program) :
    Segment.render coloured (p.segments f) = p.entry coloured f :=
  Segment.render_styled coloured _ _

/-! ## The warnings of a log -/

/-- Of the notes of a conversion, the diagnostics are the warnings. -/
theorem Event.filter_warn (ns : List Note) :
    (ns.map ofNote).filter (·.severity = .warn) =
      (ns.filterMap Note.diagnostic?).map ofDiagnostic := by
  induction ns with
  | nil => rfl
  | cons n ns ih =>
    cases n with
    | visited r k => simpa [ofNote, Note.diagnostic?, List.filterMap_cons] using ih
    | reported d => simpa [ofNote, ofDiagnostic, Note.diagnostic?, List.filterMap_cons] using ih

namespace Source

/-- What comes of a source, with its diagnostics in one place or the other. -/
def presentIn (s : Source) (o : Options) (m : DiagnosticMode) : Presentation :=
  s.present { o with diagnostics := m }

/-- The line that shows the tree of a source, if it is asked for. -/
def treeEntry (coloured : Bool) (o : Options) (t : Tree) : String :=
  if o.tree then t.entry coloured else ""

/-- The lines that show the program of a source, if it has one. -/
def programEntry (coloured : Bool) (o : Options) : Except Failure Program → String
  | .ok p => p.entry coloured o.format
  | .error _ => ""

/-- **What is presented of a source is what reading it gives**, on a terminal or not, in either
place for its diagnostics. -/
structure PresentsReading (s : Source) (o : Options) : Prop where
  /-- In either place, a source fails just if reading it does, and for the same reason. -/
  failure : ∀ m, (s.presentIn o m).failure = match (s.read {}).1 with
    | .ok _ => none
    | .error f => some f
  /-- Nothing is shown of a source that is refused. -/
  refused : ∀ m f, s.tree = .error f → (s.presentIn o m).output = []
  /-- With the diagnostics in the log, the output is the tree and the program. -/
  log : ∀ coloured t, s.tree = .ok t → Segment.render coloured (s.presentIn o .log).output =
    treeEntry coloured o t ++ programEntry coloured o (s.read {}).1
  /-- With the diagnostics in the output, one warning for each stands between these. -/
  print : ∀ coloured t, s.tree = .ok t → Segment.render coloured (s.presentIn o .print).output =
    treeEntry coloured o t ++
      String.join ((s.read {}).2.entries.map (Diagnostic.entry coloured)) ++
      programEntry coloured o (s.read {}).1
  /-- The warnings of the log are the diagnostics, with their messages and their spans. -/
  warnings : (s.presentIn o .log).events.filter (·.severity = .warn) =
    (s.read {}).2.entries.map fun d => ⟨.warn, d.message,
      [("start", Numeral.ofNat d.span.start), ("end", Numeral.ofNat d.span.stop)]⟩
  noWarnings : (s.presentIn o .print).events.filter (·.severity = .warn) = []

variable {s : Source} {o : Options}

theorem presentsReading_of_error {f : Failure} (h : s.tree = .error f) : s.PresentsReading o := by
  have hpresent : ∀ m, s.presentIn o m = { failure := some f } := fun m => by
    rw [presentIn, present, h]
  refine ⟨fun m => failure_present s _, fun m _ _ => ?_, fun _ t ht => ?_, fun _ t ht => ?_, ?_, ?_⟩
  · rw [hpresent]
  · cases h.symm.trans ht
  · cases h.symm.trans ht
  · rw [hpresent, read_of_error h]
    rfl
  · rw [hpresent]
    rfl

/-- The output is the tree, the diagnostics that belong there, and the program. -/
theorem render_presentTree (coloured : Bool) (t : Tree) :
    Segment.render coloured (s.presentTree o t).output = treeEntry coloured o t ++
      String.join ((o.diagnostics.printed t.programDiagnostics).map (Diagnostic.entry coloured)) ++
      programEntry coloured o (s.programOf t) := by
  have htree : Segment.render coloured (if o.tree then t.segments else []) =
      treeEntry coloured o t := by
    rw [treeEntry, apply_ite (Segment.render coloured), Tree.render_segments]
    rfl
  rw [presentTree]
  cases s.programOf t with
  | ok p =>
    simp only [Segment.render_append, Segment.render_flatMap, htree, Diagnostic.render_segments,
      Program.render_segments, programEntry]
  | error f =>
    simp only [Segment.render_append, Segment.render_flatMap, htree, Diagnostic.render_segments,
      programEntry, String.append_empty]

theorem events_presentTree (t : Tree) :
    (s.presentTree o t).events = (o.diagnostics.logged t.programNotes).map .ofNote := by
  rw [presentTree]
  cases s.programOf t <;> rfl

theorem presentsReading_of_ok {t : Tree} (h : s.tree = .ok t) : s.PresentsReading o := by
  have hread : s.read {} = (s.programOf t, ⟨t.programDiagnostics⟩) := by
    simp [read, program, diagnostics, h, Except.bind, Journal.reportAll]
  have hpresent : ∀ m, s.presentIn o m = s.presentTree { o with diagnostics := m } t := fun m => by
    rw [presentIn, present, h]
  refine ⟨fun m => failure_present s _, fun m f hf => ?_, fun coloured u hu => ?_,
    fun coloured u hu => ?_, ?_, ?_⟩
  · cases h.symm.trans hf
  · obtain rfl : t = u := Except.ok.inj (h.symm.trans hu)
    rw [hpresent, render_presentTree, hread, DiagnosticMode.printed, List.map_nil, String.join_nil,
      String.append_empty]
    rfl
  · obtain rfl : t = u := Except.ok.inj (h.symm.trans hu)
    rw [hpresent, render_presentTree, hread]
    rfl
  · rw [hpresent, events_presentTree, hread, DiagnosticMode.logged, Event.filter_warn]
    rfl
  · rw [hpresent, events_presentTree, DiagnosticMode.logged, Event.filter_warn]
    have hnone : ∀ n ∈ t.programNotes.filter (fun n => n.diagnostic?.isNone),
        n.diagnostic? = none := fun n hn => Option.isNone_iff_eq_none.1 (List.mem_filter.1 hn).2
    rw [List.filterMap_eq_nil_iff.2 hnone, List.map_nil]

/-- **Presenting a source shows and tells what reading it gives**, wherever diagnostics go. -/
theorem presentsReading (s : Source) (o : Options) : s.PresentsReading o := by
  cases h : s.tree with
  | error f => exact presentsReading_of_error h
  | ok t => exact presentsReading_of_ok h

end Source

end ArithLine

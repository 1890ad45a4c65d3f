import ArithLine.Proofs.Presentation
import ArithLine.Proofs.Walk

/-!
# The log of a line

A source can be read with a log listening, or it can be presented with its diagnostics in the log.
Either way the log follows the walk over the tree, but only reading tells of the tree itself.

* `Tree.visited`, `Tree.remarks`: the parts of a tree that a walk comes by, and what it notes about
  each.
* `Tree.notes_eq_remarks`: the notes of a tree, part by part.
* `Source.parse_log`, `Source.events_presentIn_log`: the two logs of a source.
* `Source.logsReading`: how they compare, and what is in them.
-/

namespace ArithLine

namespace Tree

mutual

/-- The parts of a tree that a walk comes by, each before those in it. A walk does not enter the
node of a variable, a let form or a nested program. -/
def visited : Tree → List Tree
  | node r ts sp =>
    node r ts sp ::
      match r with
      | .expr | .numeral | .chain _ => visitedAll ts
      | .var | .letForm | .program => []
  | t => [t]

/-- The parts of some trees that a walk comes by. -/
def visitedAll : List Tree → List Tree
  | [] => []
  | t :: ts => t.visited ++ visitedAll ts

end

/-- What a walk notes about a part itself. -/
def remarks : Tree → List Note
  | node r ts sp =>
    .visited r ts.length ::
      match r with
      | .expr | .numeral | .chain _ => []
      | .var => if ts.isEmpty then [.reported (.unhandledRule r sp)] else []
      | .letForm | .program => [.reported (.unhandledRule r sp)]
  | t => t.notes

/-- The event of a visit: an inner node has one, with its rule and the number of its children. -/
def visit? : Tree → Option Event
  | node r ts _ =>
    some ⟨.trace, "visit rule", [("rule", r.name), ("children", Numeral.ofNat ts.length)]⟩
  | _ => none

/-! ## Part by part -/

mutual

/-- **The notes of a tree** are what is noted about its parts, in the order of the walk. -/
theorem notes_eq_remarks : ∀ t : Tree, t.notes = t.visited.flatMap remarks
  | node r ts sp => by
    have hall := congrArg (Note.visited r ts.length :: ·) (notesAll_eq_remarks ts)
    cases r with
    | expr => exact hall
    | numeral => exact hall
    | chain o => exact hall
    | var => exact (List.flatMap_singleton _ _).symm
    | letForm => rfl
    | program => rfl
  | token _ _ => (List.flatMap_singleton _ _).symm
  | bad _ _ => rfl

theorem notesAll_eq_remarks : ∀ ts : List Tree, notesAll ts = (visitedAll ts).flatMap remarks
  | [] => rfl
  | t :: ts => by
    rw [notesAll, visitedAll, List.flatMap_append, notes_eq_remarks t, notesAll_eq_remarks ts]

end

/-- Of what is noted about a part, only the visit is a trace. -/
theorem filter_trace_remarks (t : Tree) :
    (t.remarks.map Event.ofNote).filter (·.severity = .trace) = t.visit?.toList := by
  cases t with
  | node r ts sp =>
    cases r with
    | var => cases ts <;> rfl
    | _ => rfl
  | token s sp =>
    have hnotes : (token s sp).remarks = (token s sp).notes := rfl
    rw [hnotes, notes]
    split <;> rfl
  | bad s sp => rfl

/-- The traces among the notes of some parts are their visits. -/
theorem filter_trace_flatMap (ts : List Tree) :
    ((ts.flatMap remarks).map Event.ofNote).filter (·.severity = .trace) = ts.filterMap visit? := by
  rw [List.map_flatMap, List.filter_flatMap, List.filterMap_eq_flatMap_toList]
  exact List.flatMap_congr fun t _ => t.filter_trace_remarks

/-- The notes about the tree of a line are those about all parts below its root. -/
theorem programNotes_of_ofLine {line : String} {t : Tree} (h : ofLine line = .ok t) :
    t.programNotes = (t.children.flatMap visited).flatMap remarks := by
  obtain ⟨ts, sp, sp', -, rfl, -⟩ := exists_means_of_ofLine h
  rw [programNotes, children, List.flatMap_singleton, notes_eq_remarks]

end Tree

namespace Source

/-- Reading a source tells a log the events of the source. -/
theorem parse_log (s : Source) : s.parse .log [] = (s.program, s.events) := by
  refine Prod.ext (parse_fst _ _ _) ?_
  rw [events]
  cases h : s.tree with
  | error f => rw [parse_of_error h]
  | ok t =>
    rw [parse_of_ok h, Listener.hear_log]
    rfl

/-- Presenting a source logs what its conversion notes. -/
theorem events_presentIn_log {s : Source} {t : Tree} (h : s.tree = .ok t) (o : Options) :
    (s.presentIn o .log).events = t.programEvents := by
  rw [presentIn, present, h, events_presentTree]
  rfl

theorem events_of_ok {s : Source} {t : Tree} (h : s.tree = .ok t) (o : Options) :
    s.events = .ofTree t :: (s.presentIn o .log).events := by
  rw [events, h, events_presentIn_log h]

/-- **The two logs of a source**, in any format and with its tree shown or not. -/
structure LogsReading (s : Source) (o : Options) : Prop where
  /-- Of a source that is refused, neither tells anything. -/
  refused : ∀ f, s.tree = .error f →
    (s.parse .log []).2 = [] ∧ (s.presentIn o .log).events = []
  /-- Reading tells of the tree first, and then what presenting tells. -/
  accepted : ∀ t, s.tree = .ok t →
    (s.parse .log []).2 = ⟨.debug, "parse tree", [("tree", t.dump)]⟩ :: (s.presentIn o .log).events
  /-- Both follow the walk over the tree. -/
  walk : ∀ t, s.tree = .ok t → (s.presentIn o .log).events =
    ((t.children.flatMap Tree.visited).flatMap Tree.remarks).map .ofNote
  /-- There is one trace for each inner node that the walk comes by. -/
  traces : ∀ t, s.tree = .ok t → (s.presentIn o .log).events.filter (·.severity = .trace) =
    (t.children.flatMap Tree.visited).filterMap Tree.visit?
  /-- There is one warning for each diagnostic. -/
  warnings : (s.presentIn o .log).events.filter (·.severity = .warn) =
    s.diagnostics.map Event.ofDiagnostic

/-- **Reading a source and presenting it log the same**, but for the tree. -/
theorem logsReading (s : Source) (o : Options) : s.LogsReading o where
  refused f h := by
    rw [parse_of_error h, presentIn, present, h]
    exact ⟨rfl, rfl⟩
  accepted t h := by
    rw [parse_log]
    exact events_of_ok h o
  walk t h := by
    rw [events_presentIn_log h, Tree.programEvents,
      Tree.programNotes_of_ofLine (tree_eq_ok_iff.1 h)]
  traces t h := by
    rw [events_presentIn_log h, Tree.programEvents,
      Tree.programNotes_of_ofLine (tree_eq_ok_iff.1 h), Tree.filter_trace_flatMap]
  warnings := by
    rw [diagnostics]
    cases h : s.tree with
    | error f =>
      rw [presentIn, present, h]
      rfl
    | ok t =>
      rw [events_presentIn_log h, Tree.programEvents, Event.filter_warn]
      rfl

/-- The two logs of the source `1` differ: only reading tells of its tree. -/
theorem logs_differ_one : ¬ ∀ (s : Source) (o : Options),
    (s.presentIn o .log).events = (s.parse .log []).2 := by
  intro h
  obtain ⟨t, ht⟩ : ∃ t, (input "1").tree = .ok t := ⟨_, rfl⟩
  have hsame := h (input "1") {}
  rw [parse_log, events_of_ok ht {}] at hsame
  exact absurd hsame.symm (List.cons_ne_self _ _)

end Source

end ArithLine

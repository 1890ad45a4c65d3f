import ArithLine.Walk

/-!
# Listening changes nothing

A walk gives what its tree means, and tells its listener the notes of the tree in order. So what is
built never depends on who listens, and what a listener has taken in is a fold over the notes.

* `Listener.hear`: a listener that takes in some notes.
* `Tree.convert_eq`, `Tree.build_eq`, `Source.build_eq`, `Source.parse_eq`: what a walk gives and
  tells, for every listener.
* `Listener.hear_journal`, `Listener.hear_log`: what the two kinds of listener make of some notes.
* `Tree.convert_journal`, `Source.build_journal`, `Source.parse_journal`: walks with a journal.
-/

namespace ArithLine

variable {σ : Type}

namespace Listener

/-- Takes in some notes, one after another. -/
def hear (k : Listener σ) (ns : List Note) (s : σ) : σ := ns.foldl (fun s n => k.note n s) s

variable {k : Listener σ} {s : σ}

@[simp] theorem hear_nil : k.hear [] s = s := rfl

@[simp] theorem hear_cons (n : Note) (ns : List Note) :
    k.hear (n :: ns) s = k.hear ns (k.note n s) := rfl

@[simp] theorem hear_append (ms ns : List Note) : k.hear (ms ++ ns) s = k.hear ns (k.hear ms s) :=
  List.foldl_append

/-- A journal keeps the diagnostics of what it hears behind those it has. -/
theorem hear_journal (ns : List Note) (j : Journal) :
    journal.hear ns j = j.reportAll (ns.filterMap Note.diagnostic?) := by
  induction ns generalizing j with
  | nil => simp [Journal.reportAll]
  | cons n ns ih =>
    rw [hear_cons, ih]
    cases n with
    | visited r k => simp [journal, Note.diagnostic?, List.filterMap_cons]
    | reported d =>
      simp [journal, Journal.report, Journal.reportAll, Note.diagnostic?]

/-- A log keeps all that it hears behind what it has. -/
theorem hear_log (ns : List Note) (es : List Event) : log.hear ns es = es ++ ns.map .ofNote := by
  induction ns generalizing es with
  | nil => simp
  | cons n ns ih =>
    rw [hear_cons, ih]
    simp [log]

end Listener

namespace Tree

mutual

/-- **A walk gives what its tree means and tells the notes of the tree**, whoever listens. -/
theorem convert_eq (k : Listener σ) : ∀ (t : Tree) (s : σ),
    t.convert k s = (t.expr?, k.hear t.notes s)
  | node r ts sp, s => by
    have hall := convertAll_eq k ts (k.note (.visited r ts.length) s)
    cases r with
    | var => cases ts <;> rfl
    | letForm => rfl
    | program => rfl
    | expr => rw [convert, hall]; rfl
    | numeral => rw [convert, hall]; rfl
    | chain o => rw [convert, hall]; rfl
  | token x sp, s => by
    rw [convert, expr?, notes]
    by_cases hx : isGlyph x
    · simp [hx]
    · cases hn : Numeral.read? x.toList <;> simp [hx]
  | bad _ _, _ => rfl

/-- A walk over some trees gives what they mean and tells their notes. -/
theorem convertAll_eq (k : Listener σ) : ∀ (ts : List Tree) (s : σ),
    convertAll k ts s = (exprs ts, k.hear (notesAll ts) s)
  | [], _ => rfl
  | t :: ts, s => by
    rw [convertAll, convert_eq k t s]
    dsimp only
    rw [convertAll_eq k ts, exprs, notesAll, Listener.hear_append]

end

/-- Converting a tree with a journal adds the diagnostics of the tree to it. -/
theorem convert_journal (t : Tree) (j : Journal) :
    t.convert .journal j = (t.expr?, j.reportAll t.diagnostics) := by
  rw [convert_eq, Listener.hear_journal]
  rfl

theorem build_eq (k : Listener σ) (t : Tree) (s : σ) :
    t.build k s = (t.program, k.hear t.programNotes s) := by
  unfold build
  split
  · rename_i u us sp
    rw [convert_eq, program, programNotes]
    cases u.expr? <;> rfl
  · rename_i hroot
    rw [program, programNotes]
    · rfl
    · exact hroot
    · exact hroot

end Tree

namespace Source

theorem build_eq (k : Listener σ) (src : Source) (t : Tree) (s : σ) :
    src.build k t s = (src.programOf t, k.hear t.programNotes s) := by
  rw [build, Tree.build_eq]
  rfl

/-- Building a program with a journal adds the diagnostics of the line's tree to it. -/
theorem build_journal (src : Source) (t : Tree) (j : Journal) :
    src.build .journal t j = (src.programOf t, j.reportAll t.programDiagnostics) := by
  rw [build_eq, Listener.hear_journal]
  rfl

theorem parse_of_error {f : Failure} {src : Source} (h : src.tree = .error f) (k : Listener σ)
    (s : σ) : src.parse k s = (.error f, s) := by
  rw [parse, h]

theorem parse_of_ok {t : Tree} {src : Source} (h : src.tree = .ok t) (k : Listener σ) (s : σ) :
    src.parse k s = (src.programOf t, k.hear t.programNotes (k.tree t s)) := by
  rw [parse, h]
  exact build_eq k src t _

/-- What is read of a source does not depend on who listens. -/
theorem parse_fst (k : Listener σ) (src : Source) (s : σ) : (src.parse k s).1 = src.program := by
  rw [program]
  cases h : src.tree with
  | error f => rw [parse_of_error h]; rfl
  | ok t => rw [parse_of_ok h]; rfl

/-- Reading with a journal adds the diagnostics of the source to it. -/
theorem parse_journal (src : Source) (j : Journal) : src.parse .journal j = src.read j := by
  refine Prod.ext (parse_fst _ _ _) ?_
  rw [read, diagnostics]
  cases h : src.tree with
  | error f =>
    rw [parse_of_error h]
    simp [Journal.reportAll]
  | ok t =>
    rw [parse_of_ok h]
    exact Listener.hear_journal _ j

end Source

end ArithLine

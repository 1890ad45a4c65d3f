import ArithLine.Proofs.Walk
import Mathlib.Data.List.Forall2

/-!
# The history of a journal

A journal that is used again and again loses nothing, and nobody who uses it can tell what it has
taken in before.

* `Action`: what can be done with a listener. `Action.result` is what there is to give back, and
  `Action.reports` what there is to report.
* `Action.run_fst`, `Action.run_journal`: that is what comes of it, whoever listens and whatever has
  been heard before.
* `Journal.Step`, `Journal.steps`: a journal over time, with drains among the actions.
* `Journal.steps_conserve`, `Journal.answered_steps`: what one step keeps, over any steps.
* `Journal.keepsHistory`: the whole of it.
-/

namespace ArithLine

/-- Something that is done with a listener at hand. -/
inductive Action where
  /-- Reports a diagnostic. -/
  | report (d : Diagnostic)
  /-- Converts a tree. -/
  | convert (t : Tree)
  /-- Builds the program of a tree, on behalf of a source. -/
  | build (src : Source) (t : Tree)
  /-- Reads a text to its program. -/
  | read (text : String)
  /-- Does something with the listener lent out. -/
  | lent (a : Action)

/-- What an action gives back. -/
inductive Result where
  | done
  | expr (e : Option Expr)
  | program (r : Except Failure Program)

namespace Action

variable {σ : Type}

/-- Does something with a listener. -/
def run (k : Listener σ) : Action → σ → Result × σ
  | report d, s => (.done, k.note (.reported d) s)
  | convert t, s =>
    let (e, s) := t.convert k s
    (.expr e, s)
  | build src t, s =>
    let (r, s) := src.build k t s
    (.program r, s)
  | read x, s =>
    let (r, s) := (Source.input x).parse k s
    (.program r, s)
  | lent a, s => run k.lent a s

/-- What there is to give back. -/
def result : Action → Result
  | report _ => .done
  | convert t => .expr t.expr?
  | build src t => .program (src.programOf t)
  | read x => .program (Source.input x).program
  | lent a => a.result

/-- The diagnostics that there are to report. -/
def reports : Action → List Diagnostic
  | report d => [d]
  | convert t => t.diagnostics
  | build _ t => t.programDiagnostics
  | read x => (Source.input x).diagnostics
  | lent a => a.reports

/-- **Who listens never shows in what an action gives back.** -/
theorem run_fst (k : Listener σ) (a : Action) (s : σ) : (a.run k s).1 = a.result := by
  induction a generalizing k with
  | report d => rfl
  | convert t => rw [run, Tree.convert_eq, result]
  | build src t => rw [run, Source.build_eq, result]
  | read x =>
    have hparse := Source.parse_fst k (Source.input x) s
    rw [run, result, ← hparse]
  | lent a ih => exact ih k.lent

/-- **An action adds its reports to a journal**, whatever the journal has taken in before. -/
theorem run_journal (a : Action) (j : Journal) :
    (a.run .journal j).2 = j.reportAll a.reports := by
  induction a with
  | report d => rfl
  | convert t => rw [run, Tree.convert_journal, reports]
  | build src t => rw [run, Source.build_journal, reports]
  | read x => rw [run, Source.parse_journal, reports, Source.read]
  | lent a ih => exact ih

end Action

namespace Journal

/-- A step in the life of a journal. -/
inductive Step where
  /-- Something is done with the journal listening. -/
  | act (a : Action)
  /-- The journal is drained. -/
  | drain

/-- What comes of a step. -/
inductive Answer where
  | result (r : Result)
  | drained (ds : List Diagnostic)

/-- The diagnostics that an answer hands out. -/
def Answer.handed : Answer → List Diagnostic
  | result _ => []
  | drained ds => ds

/-- Takes one step. -/
def step (j : Journal) : Step → Answer × Journal
  | .act a =>
    let (r, j) := a.run .journal j
    (.result r, j)
  | .drain =>
    let (ds, j) := j.drain
    (.drained ds, j)

/-- Takes some steps, one after another. -/
def steps (j : Journal) : List Step → List Answer × Journal
  | [] => ([], j)
  | st :: sts =>
    let (a, j) := j.step st
    let (as, j) := j.steps sts
    (a :: as, j)

/-- The diagnostics that a step leaves in a fresh journal. -/
def Step.diagnostics (st : Step) : List Diagnostic := (step {} st).2.entries

/-- The diagnostics that there are to report in a step. -/
def Step.reports : Step → List Diagnostic
  | act a => a.reports
  | drain => []

/-- Whether an answer is what there is to give back in a step, and what the step gives back with
any listener in any state. -/
def Step.AnsweredBy : Step → Answer → Prop
  | act a, .result r => r = a.result ∧ ∀ {σ : Type} (k : Listener σ) (s : σ), (a.run k s).1 = r
  | drain, .drained _ => True
  | _, _ => False

/-! ## One step -/

/-- A step leaves in a fresh journal what there is to report in it. -/
theorem Step.diagnostics_eq (st : Step) : st.diagnostics = st.reports := by
  cases st with
  | act a =>
    have hrun := a.run_journal {}
    exact congrArg Journal.entries hrun
  | drain => rfl

/-- A step loses nothing: what is handed out and what is left are what was there and what is new. -/
theorem step_conserve (j : Journal) (st : Step) :
    (j.step st).1.handed ++ (j.step st).2.entries = j.entries ++ st.diagnostics := by
  rw [st.diagnostics_eq]
  cases st with
  | act a =>
    have hrun := a.run_journal j
    exact congrArg Journal.entries hrun
  | drain => rfl

/-- A step is answered the same whatever the journal has taken in before. -/
theorem answeredBy_step (j : Journal) (st : Step) : st.AnsweredBy (j.step st).1 := by
  cases st with
  | act a =>
    have hresult : (a.run .journal j).1 = a.result := a.run_fst .journal j
    refine ⟨hresult, ?_⟩
    intro σ k s
    exact (a.run_fst k s).trans hresult.symm
  | drain => trivial

/-! ## Any steps -/

/-- Nor do any steps: everything handed out and what is left in the end are what was there and what
each step adds. -/
theorem steps_conserve (j : Journal) (sts : List Step) :
    (j.steps sts).1.flatMap Answer.handed ++ (j.steps sts).2.entries =
      j.entries ++ sts.flatMap Step.diagnostics := by
  -- by induction over the steps, for every journal, as the first step leaves another one
  induction sts generalizing j with
  | nil => simp [steps]
  | cons st sts ih =>
    have hsteps : j.steps (st :: sts) =
        ((j.step st).1 :: ((j.step st).2.steps sts).1, ((j.step st).2.steps sts).2) := rfl
    have hrest := ih (j.step st).2
    rw [hsteps, List.flatMap_cons, List.flatMap_cons, List.append_assoc, hrest]
    calc (j.step st).1.handed ++ ((j.step st).2.entries ++ sts.flatMap Step.diagnostics)
        = (j.step st).1.handed ++ (j.step st).2.entries ++ sts.flatMap Step.diagnostics :=
          (List.append_assoc _ _ _).symm
      _ = j.entries ++ st.diagnostics ++ sts.flatMap Step.diagnostics := by rw [step_conserve]
      _ = j.entries ++ (st.diagnostics ++ sts.flatMap Step.diagnostics) := List.append_assoc _ _ _

/-- Each step is answered as if there had been none before it. -/
theorem answered_steps (j : Journal) (sts : List Step) :
    List.Forall₂ Step.AnsweredBy sts (j.steps sts).1 := by
  induction sts generalizing j with
  | nil => exact .nil
  | cons st sts ih => exact .cons (j.answeredBy_step st) (ih _)

/-- **What becomes of a journal** over some steps. -/
structure KeepsHistory (j : Journal) (sts : List Step) : Prop where
  /-- What was drained, in order, and what is left are what was there and what each step leaves in
  a fresh journal. -/
  conserved : (j.steps sts).1.flatMap Answer.handed ++ (j.steps sts).2.entries =
    j.entries ++ sts.flatMap Step.diagnostics
  /-- What each step leaves in a fresh journal is what there is to report in it. -/
  fresh : ∀ st ∈ sts, st.diagnostics = st.reports
  /-- Every action gives back what it gives with a fresh journal, a log or any other listener. -/
  answered : List.Forall₂ Step.AnsweredBy sts (j.steps sts).1

/-- **A journal keeps everything and influences nothing**, over all steps that it may go through. -/
theorem keepsHistory (j : Journal) (sts : List Step) : j.KeepsHistory sts where
  conserved := j.steps_conserve sts
  fresh st _ := st.diagnostics_eq
  answered := j.answered_steps sts

end Journal

end ArithLine

import ArithLine.CommandLine.Run
import ArithLine.Proofs.Session
import Mathlib.Data.Nat.Notation

/-!
# Lines at the prompt

What a run without an expression does with good and bad lines, in any order and number.

* `Source.present_rename`: what comes of a source depends on its name only as far as a failure
  mentions it.
* `Prompt.converse_append`: lines that are text are answered one after another, failing or
  not, and then the lines after them are.
* `Prompt.Serves`: the loop over a session. It asks for the next source until there is none, and
  answers each.
* `run_serves_iff`: a run is what this loop writes for a session on all of the input.
* `run_recovers`: so a line that fails is reported and skipped. Only bytes that are no text
  end a run early.
-/

namespace ArithLine

/-! ## Names -/

/-- A failure that mentions its source under another name. -/
def Failure.rename (name : String) : Failure → Failure
  | rejected s r => rejected { s with name } r
  | noProgram s n => noProgram { s with name } n
  | stream c => stream c

/-- What is presented under another name of the source. -/
def Presentation.rename (name : String) (p : Presentation) : Presentation :=
  { p with failure := p.failure.map (Failure.rename name) }

namespace Source

theorem tree_rename (s : Source) (name : String) :
    ({ s with name } : Source).tree = s.tree.mapError (Failure.rename name) := by
  rw [tree, tree]
  cases Tree.ofLine s.content <;> rfl

theorem programOf_rename (s : Source) (name : String) (t : Tree) :
    ({ s with name } : Source).programOf t = (s.programOf t).mapError (Failure.rename name) := by
  rw [programOf, programOf]
  cases t.program <;> rfl

/-- What comes of a source under another name is the same, but for the name. -/
theorem present_rename (s : Source) (name : String) (o : Options) :
    ({ s with name } : Source).present o = (s.present o).rename name := by
  rw [present, present, tree_rename]
  cases s.tree with
  | error f => rfl
  | ok t =>
    change Source.presentTree _ o t = (s.presentTree o t).rename name
    rw [presentTree, presentTree, programOf_rename]
    cases s.programOf t <;> rfl

/-- A source fails if it has no program. -/
theorem failure_present (s : Source) (o : Options) :
    (s.present o).failure = match s.program with
      | .ok _ => none
      | .error f => some f := by
  rw [present, program]
  cases s.tree with
  | error f => rfl
  | ok t =>
    rw [Except.bind]
    dsimp only
    rw [presentTree]
    cases s.programOf t <;> rfl

end Source

namespace Prompt

/-! ## Replies -/

/-- The text of a line without its end, if its bytes are text. -/
def lineText? (l : List UInt8) : Option String := (textOfBytes? l).map stripLineEnd

/-- What comes of a line with a number. A blank line is skipped. -/
def reply (o : Options) (number : ℕ) (x : String) : Presentation :=
  if isBlankLine x then {} else (Source.line number x).present o

/-- What comes of some lines that follow `n` others. -/
def replies (o : Options) (n : ℕ) : List String → List Presentation
  | [] => []
  | x :: xs => reply o (n + 1) x :: replies o (n + 1) xs

/-- The output of some replies, each after its prompt. -/
def printed (ps : List Presentation) : String := String.join (ps.map fun p => text ++ p.stdout)

/-- The log and the reports of some replies. -/
def toldAll (o : Options) (ps : List Presentation) : String := String.join (ps.map (told o))

variable {o : Options} {n : ℕ} {l : List UInt8} {ls : List (List UInt8)} {x : String}
  {xs ys : List String}

theorem printed_cons (p : Presentation) (ps : List Presentation) :
    printed (p :: ps) = text ++ p.stdout ++ printed ps := by
  simp [printed]

theorem toldAll_cons (p : Presentation) (ps : List Presentation) :
    toldAll o (p :: ps) = told o p ++ toldAll o ps := by
  simp [toldAll]

theorem printed_append (ps qs : List Presentation) :
    printed (ps ++ qs) = printed ps ++ printed qs := by
  simp [printed]

theorem toldAll_append (ps qs : List Presentation) :
    toldAll o (ps ++ qs) = toldAll o ps ++ toldAll o qs := by
  simp [toldAll]

theorem replies_append (xs ys : List String) :
    replies o n (xs ++ ys) = replies o n xs ++ replies o (n + xs.length) ys := by
  induction xs generalizing n with
  | nil => rfl
  | cons x xs ih =>
    rw [List.cons_append, replies, ih, replies, List.cons_append, List.length_cons,
      Nat.add_right_comm, Nat.add_assoc]

theorem reply_rename (m n : ℕ) (x : String) :
    (reply o m x).rename "" = (reply o n x).rename "" := by
  rw [reply, reply]
  split
  · rfl
  · rw [← Source.present_rename, ← Source.present_rename]
    rfl

/-- The number of a line matters to nothing but the name under which it is reported. -/
theorem replies_rename (m n : ℕ) (xs : List String) :
    (replies o m xs).map (Presentation.rename "") =
      (replies o n xs).map (Presentation.rename "") := by
  induction xs generalizing m n with
  | nil => rfl
  | cons x xs ih =>
    rw [replies, replies, List.map_cons, List.map_cons, reply_rename (m + 1) (n + 1),
      ih (m + 1) (n + 1)]

theorem printed_map_rename (name : String) (ps : List Presentation) :
    printed (ps.map (Presentation.rename name)) = printed ps := by
  rw [printed, printed, List.map_map]
  rfl

theorem printed_replies (m n : ℕ) (xs : List String) :
    printed (replies o m xs) = printed (replies o n xs) := by
  rw [← printed_map_rename "", replies_rename m n, printed_map_rename]

/-! ## Answers -/

theorem answer_of_text (h : lineText? l = some x) :
    answer o n l = .next (n + 1) (reply o (n + 1) x).stdout (told o (reply o (n + 1) x)) := by
  obtain ⟨y, hy, rfl⟩ := Option.map_eq_some_iff.1 h
  rw [answer, Source.ofBytes?, hy]
  rfl

theorem answer_of_none (h : lineText? l = none) :
    answer o n l = .stop (Failure.stream .invalidText).final := by
  rw [answer, Source.ofBytes?, Option.map_eq_none_iff.1 h]
  rfl

theorem before_before (out err out' err' : String) (r : Outcome) :
    (r.before out err).before out' err' = r.before (out' ++ out) (err' ++ err) := by
  simp [Outcome.before, String.append_assoc]

/-- **Lines that are text are answered one after another**, failing or not. -/
theorem converse_append (h : ls.map lineText? = xs.map some) (rest : List (List UInt8)) :
    converse o n (ls ++ rest) =
      (converse o (n + xs.length) rest).before (printed (replies o n xs))
        (toldAll o (replies o n xs)) := by
  induction xs generalizing n ls with
  | nil =>
    rw [List.map_eq_nil_iff.1 h]
    simp [replies, printed, toldAll, Outcome.before]
  | cons x xs ih =>
    obtain ⟨l, ls, rfl, hl, hls⟩ := List.map_eq_cons_iff.1 h
    rw [List.cons_append, converse, answer_of_text hl]
    dsimp only
    rw [ih hls, before_before, List.length_cons, Nat.add_right_comm, Nat.add_assoc]
    rw [replies, printed_cons, toldAll_cons]

/-- **What happens to good and bad lines.** -/
structure Recovers (o : Options) (r : List UInt8 → Outcome) : Prop where
  /-- Lines that are text are all answered, and then the run ends well. -/
  ends : ∀ bs xs, (physicalLines bs).map lineText? = xs.map some →
    r bs = ⟨printed (replies o 0 xs) ++ text ++ "\n", toldAll o (replies o 0 xs), 0⟩
  /-- A line fails if it is not blank and has no program. -/
  fails : ∀ n x f, (reply o n x).failure = some f ↔
    isBlankLine x = false ∧ (Source.line n x).program = .error f
  /-- A line that fails is reported once. Without it, there is neither what it prints nor what is
  told about it, and nothing else is different but the numbers of the lines after it. -/
  skips : ∀ bs bs' ls l rest xs x ys f, physicalLines bs = ls ++ l :: rest →
    physicalLines bs' = ls ++ rest → ls.map lineText? = xs.map some → lineText? l = some x →
    rest.map lineText? = ys.map some → (reply o (xs.length + 1) x).failure = some f →
    let before := replies o 0 xs
    let failed := reply o (xs.length + 1) x
    let after := replies o (xs.length + 1) ys
    let after' := replies o xs.length ys
    after.map (Presentation.rename "") = after'.map (Presentation.rename "") ∧
    r bs = ⟨printed before ++ (text ++ failed.stdout) ++ printed after ++ text ++ "\n",
      toldAll o before ++ (failed.logText o ++ f.report) ++ toldAll o after, 0⟩ ∧
    r bs' = ⟨printed before ++ printed after ++ text ++ "\n",
      toldAll o before ++ toldAll o after', 0⟩
  /-- Bytes that are no text end the run. The lines after them are not read. -/
  stops : ∀ bs ls l rest xs, physicalLines bs = ls ++ l :: rest →
    ls.map lineText? = xs.map some → lineText? l = none →
    r bs = ⟨printed (replies o 0 xs) ++ text,
      toldAll o (replies o 0 xs) ++ (Failure.stream .invalidText).final, 1⟩

theorem reply_failure_iff (n : ℕ) (x : String) (f : Failure) :
    (reply o n x).failure = some f ↔
      isBlankLine x = false ∧ (Source.line n x).program = .error f := by
  rw [reply]
  cases isBlankLine x with
  | true => simp
  | false =>
    simp only [Bool.false_eq_true, if_false, true_and, Source.failure_present]
    cases (Source.line n x).program <;> simp

/-- An input whose lines are all text is answered to its end. -/
theorem converse_eq (h : ls.map lineText? = xs.map some) :
    converse o 0 ls = ⟨printed (replies o 0 xs) ++ text ++ "\n", toldAll o (replies o 0 xs), 0⟩ := by
  have heq := converse_append (o := o) (n := 0) h []
  rw [List.append_nil] at heq
  rw [heq, converse]
  simp [Outcome.before, String.append_assoc]

/-- **At the prompt, a line that fails is reported and skipped.** -/
theorem recovers (o : Options) : Recovers o fun bs => converse o 0 (physicalLines bs) where
  ends _ _ h := converse_eq h
  fails := reply_failure_iff
  skips bs bs' ls l rest xs x ys f hbs hbs' hls hl hrest hf := by
    refine ⟨replies_rename _ _ ys, ?_, ?_⟩
    · have h : (physicalLines bs).map lineText? = (xs ++ x :: ys).map some := by
        simp [hbs, hls, hl, hrest]
      have htold : told o (reply o (xs.length + 1) x) =
          (reply o (xs.length + 1) x).logText o ++ f.report := by
        rw [told, hf]
        rfl
      rw [converse_eq h, replies_append, Nat.zero_add, replies, printed_append, printed_cons,
        toldAll_append, toldAll_cons, htold]
      simp only [String.append_assoc]
    · have h : (physicalLines bs').map lineText? = (xs ++ ys).map some := by
        simp [hbs', hls, hrest]
      rw [converse_eq h, replies_append, Nat.zero_add, printed_append, toldAll_append,
        printed_replies xs.length (xs.length + 1)]
  stops bs ls l rest xs hbs hls hl := by
    rw [hbs, converse_append hls, converse, answer_of_none hl]
    rfl

/-! ## The loop -/

/-- **What the prompt writes for a session.** It asks for the next source until there is none,
and answers each. A failure to read ends it. -/
inductive Serves (o : Options) : Session → Outcome → Prop
  | ends {s s' : Session} (next : s.nextSource = (.ok none, s')) :
    Serves o s { stdout := text ++ "\n" }
  | stops {s s' : Session} {f : Failure} (next : s.nextSource = (.error f, s')) :
    Serves o s { stdout := text, stderr := f.final, code := 1 }
  | answers {s s' : Session} {src : Source} {r : Outcome}
    (next : s.nextSource = (.ok (some src), s')) (rest : Serves o s' r) :
    Serves o s (r.before (text ++ (present o src).stdout) (told o (present o src)))

theorem Serves.unique {s : Session} {r r' : Outcome} (h : Serves o s r) (h' : Serves o s r') :
    r = r' := by
  induction h generalizing r' with
  | ends next => cases h' <;> simp_all
  | stops next => cases h' <;> simp_all
  | answers next _ ih =>
    cases h' with
    | ends next' => cases next.symm.trans next'
    | stops next' => cases next.symm.trans next'
    | answers next' rest' =>
      cases next.symm.trans next'
      rw [ih rest']

/-- A session reads the next line as the prompt does: the same source with the same number. -/
theorem nextSource_cons {s : Session} (hls : Cuts s.input (l :: ls)) (hroom : s.sink.room = none) :
    s.nextSource = match Source.ofBytes? (s.lineNumber + 1) l with
      | none => (.error (.stream .invalidText), s.taken (l :: ls))
      | some src =>
        (.ok (some src), { s.taken (l :: ls) with lineNumber := s.lineNumber + 1 }) := by
  rw [Session.nextSource_eq hls (by simp [hroom]), Source.ofBytes?]
  cases h : textOfBytes? l <;>
    simp [Session.turn, Session.taken, Session.countTexts, hroom, h]

/-- The lines that are left of a session are answered as its loop answers them. -/
theorem serves_converse {s : Session} (hls : Cuts s.input ls) (hroom : s.sink.room = none) :
    Serves o s (converse o s.lineNumber ls) := by
  induction ls generalizing s with
  | nil =>
    have hturn : Session.turn s.lineNumber s.sink.room [] 0 = .ok none := by
      rw [Session.turn, hroom]
      rfl
    have hnext := Session.nextSource_eq hls (by simp [hroom])
    rw [hturn] at hnext
    exact .ends hnext
  | cons l ls ih =>
    have hnext := nextSource_cons hls hroom
    rw [converse, answer]
    cases hsrc : Source.ofBytes? (s.lineNumber + 1) l with
    | none =>
      rw [hsrc] at hnext
      exact .stops hnext
    | some src =>
      rw [hsrc] at hnext
      exact .answers hnext (ih hls.tail (by simp [Session.taken, hroom]))

/-- **The lines of an input are answered as a session reads them**, if there is room for all
prompts. -/
theorem serves_iff {s : Session} (hroom : s.sink.room = none) (r : Outcome) :
    Serves o s r ↔ r = converse o s.lineNumber (physicalLines s.input) := by
  have hserves := serves_converse (o := o) (cuts_physicalLines s.input) hroom
  exact ⟨fun h => h.unique hserves, fun h => h ▸ hserves⟩

end Prompt

/-- Without an expression, the lines of the input are answered. -/
theorem run_eq_converse {args : List String} {o : Options} (ho : Options.ofArguments args = .ok o)
    (he : o.expr = none) (bs : List UInt8) :
    run args bs = Prompt.converse o 0 (physicalLines bs) := by
  simp only [run, ho, he]

/-- **A run without an expression is the loop of the prompt** over a session on all of the
input. -/
theorem run_serves_iff {args : List String} {o : Options} (ho : Options.ofArguments args = .ok o)
    (he : o.expr = none) (bs : List UInt8) (r : Outcome) :
    Prompt.Serves o { input := bs } r ↔ r = run args bs := by
  rw [run_eq_converse ho he]
  exact Prompt.serves_iff rfl r

/-- **A run without an expression skips the lines that fail**, up to the first line whose bytes
are no text. There it ends. -/
theorem run_recovers {args : List String} {o : Options} (ho : Options.ofArguments args = .ok o)
    (he : o.expr = none) : Prompt.Recovers o (run args) := by
  have hrun : run args = fun bs => Prompt.converse o 0 (physicalLines bs) :=
    funext (run_eq_converse ho he)
  rw [hrun]
  exact Prompt.recovers o

/-- The line `(` fails, and `1` after it is answered. -/
theorem run_recovers_unclosed :
    Options.ofArguments [] = .ok {} ∧ ({} : Options).expr = none ∧
      (Prompt.reply {} 1 "(").failure.isSome ∧
      run [] [0x28, 0x0a, 0x31, 0x0a] =
        ⟨Prompt.printed (Prompt.replies {} 0 ["(", "1"]) ++ Prompt.text ++ "\n",
          Prompt.toldAll {} (Prompt.replies {} 0 ["(", "1"]), 0⟩ :=
  ⟨rfl, rfl, by decide +kernel, (run_recovers rfl rfl).ends _ ["(", "1"] (by decide +kernel)⟩

/-- Bytes that are no text end the run with a failure, although the line after them is fine. -/
theorem run_stops_at_invalidText :
    run [] [0xff, 0x0a, 0x31, 0x0a] =
        ⟨"$ ", "Error: stream did not contain valid UTF-8\n" ++
          "    Diagnostic severity: error\n" ++ "diagnostic code: varlang::io\n\n", 1⟩ ∧
      run [] [0x31, 0x0a] = ⟨"$ Const(1)\n$ \n", "", 0⟩ := by
  decide +kernel

end ArithLine

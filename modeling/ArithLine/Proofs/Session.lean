import ArithLine.Proofs.Lines

/-!
# The protocol of a session

What a session does over any number of calls, whatever the lines before have been.

* `Session.turn`: what there is for the call at a position. It depends on the line at this
  position and on how many lines before it are text, and on nothing else.
* `Session.nextSource_eq`: one call takes its turn. It writes its prompt as far as there is
  room, and takes a line in if there was room for all of it.
* `Session.follows_protocol`: so any calls take their turns one after another.
-/

namespace ArithLine

namespace Session

/-! ## Calls -/

/-- What is asked of a session. -/
inductive Call where
  /-- The next source. -/
  | source
  /-- The program of the next source. -/
  | program
  deriving DecidableEq, Repr

/-- What a session answers. -/
inductive Answer where
  | source (r : Except Failure (Option Source))
  | program (r : Except Failure (Option Program))

/-- One call. -/
def call (s : Session) (j : Journal) : Call → Answer × Session × Journal
  | .source => (.source s.nextSource.1, s.nextSource.2, j)
  | .program => (.program (s.read j).1, (s.read j).2)

/-- Some calls, one after another. -/
def calls (s : Session) (j : Journal) : List Call → List Answer × Session × Journal
  | [] => ([], s, j)
  | c :: cs =>
    let first := s.call j c
    let others := first.2.1.calls first.2.2 cs
    (first.1 :: others.1, others.2)

/-! ## Turns -/

/-- How many of some prompts there is room for. -/
def fitting (room : Option ℕ) (k : ℕ) : ℕ := room.elim k fun c => min k (c / 2)

/-- The characters of some prompts, as far as there is room for them. -/
def prompts (room : Option ℕ) (k : ℕ) : List Char :=
  let cs := (List.replicate k prompt).flatten
  room.elim cs fun c => cs.take c

/-- How many of some lines are text. -/
def countTexts (ls : List (List UInt8)) : ℕ := ls.countP fun l => (textOfBytes? l).isSome

/-- **What there is for the call at a position**, after `n` lines have been counted: nothing
if its prompt and those before do not fit, else the line at this position, if there is one. -/
def turn (n : ℕ) (room : Option ℕ) (ls : List (List UInt8)) (i : ℕ) :
    Except Failure (Option Source) :=
  if room.any (· < 2 * (i + 1)) then .error (.stream .fullOutput)
  else
    match ls[i]? with
    | none => .ok none
    | some l =>
      match textOfBytes? l with
      | none => .error (.stream .invalidText)
      | some x => .ok (some (.line (n + countTexts (ls.take (i + 1))) (stripLineEnd x)))

/-- What is answered to a call, from what there is for it. A program is what reading its
source alone gives. -/
def Call.answer : Call → Except Failure (Option Source) → Answer
  | source, r => .source r
  | program, .error f => .program (.error f)
  | program, .ok none => .program (.ok none)
  | program, .ok (some src) => .program ((src.read {}).1.map some)

/-- What a call reports, from what there is for it. -/
def Call.reported : Call → Except Failure (Option Source) → List Diagnostic
  | program, .ok (some src) => (src.read {}).2.entries
  | _, _ => []

/-- Whether some calls on a session, whose input has the lines `ls`, leave another session and
another journal with these answers. -/
structure Follows (s : Session) (j : Journal) (ls : List (List UInt8)) (cs : List Call)
    (as : List Answer) (s' : Session) (j' : Journal) : Prop where
  lines : Cuts s.input ls
  strips : ∀ l ∈ ls, ∀ x, textOfBytes? l = some x → Strips x (stripLineEnd x)
  /-- All prompts have been written, as far as there was room. -/
  written : s'.sink.written = s.sink.written ++ prompts s.sink.room cs.length
  /-- Each call whose prompt fitted has taken one line in. -/
  input : s'.input = (ls.drop (fitting s.sink.room cs.length)).flatten
  lineNumber : s'.lineNumber =
    s.lineNumber + countTexts (ls.take (fitting s.sink.room cs.length))
  answers : as = cs.mapIdx fun i c => c.answer (turn s.lineNumber s.sink.room ls i)
  entries : j'.entries = j.entries ++
    (cs.mapIdx fun i c => c.reported (turn s.lineNumber s.sink.room ls i)).flatten

variable {s : Session} {j : Journal} {ls : List (List UInt8)} {room : Option ℕ} {n r : ℕ}

/-! ## Room -/

theorem fitting_eq_zero (hr : r < 2) (k : ℕ) : fitting (some r) k = 0 := by
  simp only [fitting, Option.elim_some]
  omega

theorem fitting_succ (hroom : ∀ r ∈ room, 2 ≤ r) (k : ℕ) :
    fitting room (k + 1) = fitting (room.map (· - 2)) k + 1 := by
  cases room with
  | none => rfl
  | some r =>
    have hr : 2 ≤ r := hroom r rfl
    simp only [fitting, Option.map_some, Option.elim_some]
    omega

theorem prompts_of_lt (hr : r < 2) (k : ℕ) :
    prompts (some r) (k + 1) = prompt.take r ++ prompts (some 0) k := by
  simp only [prompts, Option.elim_some, List.replicate_succ, List.flatten_cons, List.take_zero,
    List.append_nil]
  exact List.take_append_of_le_length (by simp [prompt]; omega)

theorem prompts_succ (hroom : ∀ r ∈ room, 2 ≤ r) (k : ℕ) :
    prompts room (k + 1) = prompt ++ prompts (room.map (· - 2)) k := by
  cases room with
  | none => rfl
  | some r =>
    have hr : 2 ≤ r := hroom r rfl
    have hlen : prompt.length = 2 := rfl
    simp only [prompts, Option.map_some, Option.elim_some, List.replicate_succ, List.flatten_cons,
      List.take_append, hlen]
    rw [List.take_of_length_le (by omega)]

theorem turn_of_lt (hr : r < 2) (i : ℕ) :
    turn n (some r) ls i = .error (.stream .fullOutput) := by
  have h : r < 2 * (i + 1) := by omega
  simp [turn, h]

theorem countTexts_take_succ (ls : List (List UInt8)) (k : ℕ) :
    countTexts (ls.take (k + 1)) =
      countTexts (ls.take 1) + countTexts (ls.tail.take k) := by
  cases ls with
  | nil => simp [countTexts]
  | cons l ls =>
    simp only [countTexts, List.take_succ_cons, List.countP_cons, List.take_zero,
      List.countP_nil, List.tail_cons]
    omega

/-- The turn after the first is the first of the lines that are left. -/
theorem turn_succ (hroom : ∀ r ∈ room, 2 ≤ r) (i : ℕ) :
    turn n room ls (i + 1) =
      turn (n + countTexts (ls.take 1)) (room.map (· - 2)) ls.tail i := by
  have hany : room.any (· < 2 * (i + 1 + 1)) = (room.map (· - 2)).any (· < 2 * (i + 1)) := by
    cases room with
    | none => rfl
    | some r =>
      have hr : 2 ≤ r := hroom r rfl
      simp only [Option.map_some, Option.any_some, decide_eq_decide]
      omega
  simp only [turn, hany, countTexts_take_succ ls (i + 1), List.getElem?_tail, Nat.add_assoc]

/-! ## Steps -/

/-- A session once the next line has been taken in. -/
def taken (s : Session) (ls : List (List UInt8)) : Session :=
  ⟨ls.tail.flatten, s.lineNumber + countTexts (ls.take 1),
    ⟨s.sink.written ++ prompt, s.sink.room.map (· - 2)⟩⟩

/-- A session once there was room for `r` characters of the prompt only. -/
def filled (s : Session) (r : ℕ) : Session :=
  { s with sink := ⟨s.sink.written ++ prompt.take r, some 0⟩ }

/-- A prompt that does not fit is written as far as it does. -/
theorem nextSource_of_lt (h : s.sink.room = some r) (hr : r < 2) :
    s.nextSource = (.error (.stream .fullOutput), s.filled r) := by
  have hwrite : s.sink.write prompt = (false, ⟨s.sink.written ++ prompt.take r, some 0⟩) := by
    have hlen : prompt.length = 2 := rfl
    have h0 : r - 2 = 0 := by omega
    simp [Sink.write, h, hlen, hr, h0]
  rw [nextSource, hwrite]
  rfl

/-- **A call whose prompt fits takes the next line in.** -/
theorem nextSource_eq (hls : Cuts s.input ls) (hroom : ∀ r ∈ s.sink.room, 2 ≤ r) :
    s.nextSource = (turn s.lineNumber s.sink.room ls 0, s.taken ls) := by
  have hwrite : s.sink.write prompt =
      (true, ⟨s.sink.written ++ prompt, s.sink.room.map (· - 2)⟩) := by
    cases h : s.sink.room with
    | none => simp [Sink.write, h]
    | some r =>
      have hlen : prompt.length = 2 := rfl
      have hr : 2 ≤ r := hroom r h
      simp [Sink.write, h, hlen, hr, List.take_of_length_le]
  have hany : s.sink.room.any (· < 2 * (0 + 1)) = false := by
    cases h : s.sink.room with
    | none => rfl
    | some r =>
      have hr : 2 ≤ r := hroom r h
      simp only [Option.any_some, decide_eq_false_iff_not]
      omega
  rw [nextSource, hwrite, hls.cutLine_eq, turn, hany]
  cases ls with
  | nil =>
    have hinput : s.input = [] := hls.flatten_eq.symm
    simp [taken, countTexts, hinput]
  | cons l ls =>
    obtain ⟨b, l, rfl⟩ := List.exists_cons_of_ne_nil (hls.ne_nil_of_mem l List.mem_cons_self)
    cases h : textOfBytes? (b :: l) <;> simp [taken, countTexts, Source.ofBytes?, h]

/-- A call whose prompt does not fit. -/
theorem call_of_lt (h : s.sink.room = some r) (hr : r < 2) (c : Call) :
    s.call j c = (c.answer (.error (.stream .fullOutput)), s.filled r, j) := by
  cases c with
  | source => rw [call, nextSource_of_lt h hr]; rfl
  | program => rw [call, read, nextSource_of_lt h hr]; rfl

/-- A call whose prompt fits. -/
theorem call_eq (hls : Cuts s.input ls) (hroom : ∀ r ∈ s.sink.room, 2 ≤ r) (c : Call) :
    s.call j c = (c.answer (turn s.lineNumber s.sink.room ls 0), s.taken ls,
      j.reportAll (c.reported (turn s.lineNumber s.sink.room ls 0))) := by
  cases c with
  | source =>
    rw [call, nextSource_eq hls hroom]
    simp [Call.answer, Call.reported, Journal.reportAll]
  | program =>
    rw [call, read, nextSource_eq hls hroom]
    rcases turn s.lineNumber s.sink.room ls 0 with f | - | src
    all_goals simp [Call.answer, Call.reported, Journal.reportAll, Source.read]

namespace Follows

variable {c : Call} {cs : List Call} {as : List Answer} {s' : Session} {j' : Journal}

theorem nil (s : Session) (j : Journal) (hls : Cuts s.input ls) : Follows s j ls [] [] s j where
  lines := hls
  strips _ _ x _ := strips_stripLineEnd x
  written := by cases h : s.sink.room <;> simp [prompts]
  input := by cases h : s.sink.room <;> simp [fitting, hls.flatten_eq]
  lineNumber := by cases h : s.sink.room <;> simp [fitting, countTexts]
  answers := rfl
  entries := by simp

/-- A call whose prompt does not fit leaves no room for the calls after it. -/
theorem cons_of_lt (hls : Cuts s.input ls) (hr : s.sink.room = some r) (hlt : r < 2)
    (h : Follows (s.filled r) j ls cs as s' j') :
    Follows s j ls (c :: cs) (c.answer (.error (.stream .fullOutput)) :: as) s' j' := by
  have hroom : (s.filled r).sink.room = some 0 := rfl
  refine ⟨hls, h.strips, ?_, ?_, ?_, ?_, ?_⟩
  · rw [h.written, hroom, hr, List.length_cons, prompts_of_lt hlt, filled, List.append_assoc]
  · rw [h.input, hroom, hr, fitting_eq_zero hlt, fitting_eq_zero Nat.zero_lt_two]
  · rw [h.lineNumber, hroom, hr, fitting_eq_zero hlt, fitting_eq_zero Nat.zero_lt_two, filled]
  · rw [List.mapIdx_cons, h.answers]
    simp only [hroom, hr, turn_of_lt hlt, turn_of_lt Nat.zero_lt_two]
  · rw [List.mapIdx_cons, List.flatten_cons, h.entries]
    simp only [hroom, hr, turn_of_lt hlt, turn_of_lt Nat.zero_lt_two]
    cases c <;> rfl

/-- A call whose prompt fits leaves the calls after it the lines after the first. -/
theorem cons (hls : Cuts s.input ls) (hroom : ∀ r ∈ s.sink.room, 2 ≤ r)
    (h : Follows (s.taken ls) (j.reportAll (c.reported (turn s.lineNumber s.sink.room ls 0)))
      ls.tail cs as s' j') :
    Follows s j ls (c :: cs) (c.answer (turn s.lineNumber s.sink.room ls 0) :: as) s' j' := by
  refine ⟨hls, fun _ _ x _ => strips_stripLineEnd x, ?_, ?_, ?_, ?_, ?_⟩
  · rw [h.written, List.length_cons, prompts_succ hroom, taken, List.append_assoc]
  · rw [h.input, List.length_cons, fitting_succ hroom, List.drop_tail, taken]
  · rw [h.lineNumber, List.length_cons, fitting_succ hroom, countTexts_take_succ ls (fitting _ _),
      taken, Nat.add_assoc]
  · rw [List.mapIdx_cons, h.answers]
    simp only [turn_succ hroom, taken]
  · rw [List.mapIdx_cons, List.flatten_cons, h.entries, Journal.reportAll, List.append_assoc]
    simp only [turn_succ hroom, taken]

end Follows

/-! ## Runs -/

/-- Whatever lines there are, calls take their turns. -/
theorem follows (s : Session) (j : Journal) (cs : List Call) {ls : List (List UInt8)}
    (hls : Cuts s.input ls) :
    Follows s j ls cs (s.calls j cs).1 (s.calls j cs).2.1 (s.calls j cs).2.2 := by
  induction cs generalizing s j ls with
  | nil => exact .nil s j hls
  | cons c cs ih =>
    by_cases hroom : ∀ r ∈ s.sink.room, 2 ≤ r
    · rw [calls, call_eq hls hroom]
      exact .cons hls hroom (ih _ _ hls.tail)
    · push Not at hroom
      obtain ⟨r, hr, hlt⟩ := hroom
      rw [calls, call_of_lt hr hlt]
      exact .cons_of_lt hls hr hlt (ih _ _ hls)

/-- **A session follows the line protocol**, whatever its input is, however much room there is
for its output, and whichever calls are made. -/
theorem follows_protocol (s : Session) (j : Journal) (cs : List Call) :
    Follows s j (physicalLines s.input) cs (s.calls j cs).1 (s.calls j cs).2.1
      (s.calls j cs).2.2 :=
  follows s j cs (cuts_physicalLines s.input)

end Session

end ArithLine

import ArithLine.Proofs.Lines
import ArithLine.Proofs.Prompt

/-!
# The transcript of a prompt

What a run without an expression writes if its input is text.

* `LinesOf`: the lines of a text. Its bytes are cut where the text is (`LinesOf.cuts`), because no
  other character has the byte of a newline in it.
* `Prompt.Transcript`: a prompt before each line and after the last, and between them what comes of
  the lines one by one.
* `run_transcript`: every text is answered so to its end.
-/

namespace ArithLine

/-! ## The lines of a text -/

/-- **The lines of a text**, each with its end. -/
inductive LinesOf : List Char → List String → Prop
  | nil : LinesOf [] []
  | last {l : List Char} (hne : l ≠ []) (hl : '\n' ∉ l) : LinesOf l [.ofList l]
  | line {l cs : List Char} {ls : List String} (hl : '\n' ∉ l) (h : LinesOf cs ls) :
    LinesOf (l ++ '\n' :: cs) (.ofList (l ++ ['\n']) :: ls)

theorem exists_linesOf (cs : List Char) : ∃ ls, LinesOf cs ls := by
  induction cs with
  | nil => exact ⟨_, .nil⟩
  | cons c cs ih =>
    obtain ⟨ls, h⟩ := ih
    by_cases hc : c = '\n'
    · subst hc
      exact ⟨_, .line (l := []) List.not_mem_nil h⟩
    · have hmem : ∀ {l : List Char}, '\n' ∉ l → '\n' ∉ c :: l := fun hl => by
        simp [hl, Ne.symm hc]
      cases h with
      | nil => exact ⟨_, .last (List.cons_ne_nil c []) (hmem List.not_mem_nil)⟩
      | last _ hl => exact ⟨_, .last (List.cons_ne_nil c _) (hmem hl)⟩
      | line hl h => exact ⟨_, .line (hmem hl) h⟩

/-- The bytes that encode a text. -/
def bytesOf (cs : List Char) : List UInt8 := cs.flatMap String.utf8EncodeChar

/-- A character that takes more than one byte has no byte below 128 in it. -/
theorem le_of_mem_utf8EncodeChar {c : Char} {b : UInt8} (hc : 0x80 ≤ c.toNat)
    (hb : b ∈ String.utf8EncodeChar c) : 0x80 ≤ b.toNat := by
  unfold String.utf8EncodeChar at hb
  change b ∈ (if c.toNat ≤ 0x7F then _ else _) at hb
  rw [if_neg (by omega)] at hb
  split at hb
  · simp only [List.mem_cons, List.not_mem_nil, or_false] at hb
    rcases hb with rfl | rfl <;> simp <;> omega
  split at hb
  all_goals
    simp only [List.mem_cons, List.not_mem_nil, or_false] at hb
    rcases hb with rfl | rfl | rfl | rfl <;> simp <;> omega

theorem eq_of_newline_mem {c : Char} (h : newline ∈ String.utf8EncodeChar c) : c = '\n' := by
  have hlt : c.toNat < 0x80 := by
    by_contra hle
    have h80 := le_of_mem_utf8EncodeChar (Nat.le_of_not_lt hle) h
    exact absurd h80 (by decide)
  unfold String.utf8EncodeChar at h
  change newline ∈ (if c.toNat ≤ 0x7F then _ else _) at h
  rw [if_pos (by omega), List.mem_singleton] at h
  have hbyte : (10 : ℕ) = c.toNat % 256 := congrArg UInt8.toNat h
  have hc : c.toNat = 10 := by omega
  rw [← Char.ofNat_toNat c, hc]

theorem newline_notMem_bytesOf {l : List Char} (hl : '\n' ∉ l) : newline ∉ bytesOf l := by
  intro h
  obtain ⟨c, hc, hb⟩ := List.mem_flatMap.1 h
  rw [eq_of_newline_mem hb] at hc
  exact hl hc

theorem textOfBytes?_eq_some_iff {bs : List UInt8} {x : String} :
    textOfBytes? bs = some x ↔ bs = bytesOf x.toList := by
  have hbytes : ∀ y : String, y.toByteArray = ⟨(bytesOf y.toList).toArray⟩ := by
    intro y
    obtain ⟨cs, rfl⟩ := y.exists_eq_ofList
    apply ByteArray.ext
    simp [List.utf8Encode, bytesOf]
  rw [textOfBytes?, String.fromUTF8?]
  constructor
  · intro h
    split at h
    · have hx := hbytes x
      rw [← Option.some.inj h] at hx ⊢
      exact congrArg (·.data.toList) hx
    · cases h
  · rintro rfl
    rw [dif_pos (hbytes x ▸ x.isValidUTF8)]
    exact congrArg some (String.toByteArray_inj.1 (hbytes x).symm)

/-- Bytes are cut in one way only. -/
theorem Cuts.unique {bs : List UInt8} {ls ls' : List (List UInt8)} (h : Cuts bs ls)
    (h' : Cuts bs ls') : ls = ls' := by
  induction ls generalizing bs ls' with
  | nil =>
    obtain rfl : [] = bs := h.flatten_eq
    cases ls' with
    | nil => rfl
    | cons l' ls' =>
      exact absurd (congrArg Prod.fst h'.cutLine_eq).symm (h'.ne_nil_of_mem l' List.mem_cons_self)
  | cons l ls ih =>
    have hcut := h.cutLine_eq.symm.trans h'.cutLine_eq
    cases ls' with
    | nil => exact absurd (congrArg Prod.fst hcut) (h.ne_nil_of_mem l List.mem_cons_self)
    | cons l' ls' =>
      have hl : l = l' := congrArg Prod.fst hcut
      have hflat : ls.flatten = ls'.flatten := congrArg Prod.snd hcut
      have htail : Cuts ls.flatten ls' := hflat ▸ h'.tail
      rw [hl, ih h.tail htail]

/-- **The bytes of a text are cut where the text is.** -/
theorem LinesOf.cuts {cs : List Char} {ls : List String} (h : LinesOf cs ls) :
    Cuts (bytesOf cs) (ls.map fun l => bytesOf l.toList) := by
  induction h with
  | nil => exact .nil
  | @last l hne hl =>
    have hbytes : bytesOf l ≠ [] := by
      obtain ⟨c, l, rfl⟩ := List.exists_cons_of_ne_nil hne
      simp [bytesOf, ← List.length_eq_zero_iff, Char.utf8Size_pos c |>.ne']
    simpa using Cuts.last hbytes (newline_notMem_bytesOf hl)
  | @line l cs ls hl h ih =>
    have hend : String.utf8EncodeChar '\n' = [newline] := by decide
    simpa [bytesOf, hend] using Cuts.line (newline_notMem_bytesOf hl) ih

theorem LinesOf.map_lineText? {bs : List UInt8} {x : String} {ls : List String}
    (hx : textOfBytes? bs = some x) (h : LinesOf x.toList ls) :
    (physicalLines bs).map Prompt.lineText? = (ls.map stripLineEnd).map some := by
  have hcuts := h.cuts
  rw [← textOfBytes?_eq_some_iff.1 hx] at hcuts
  rw [(cuts_physicalLines bs).unique hcuts, List.map_map, List.map_map, List.map_inj_left]
  intro l _
  change (textOfBytes? (bytesOf l.toList)).map stripLineEnd = some (stripLineEnd l)
  rw [textOfBytes?_eq_some_iff.2 rfl, Option.map_some]

namespace Prompt

/-! ## What is written -/

/-- A part of the standard error: a line of the log or a report. -/
inductive Entry where
  | logged (e : Event)
  | reported (f : Failure)

/-- The text of an entry. -/
def Entry.text : Entry → String
  | logged e => e.line
  | reported f => f.report

/-- The failure that an entry reports, if it is a report. -/
def Entry.failure? : Entry → Option Failure
  | logged _ => none
  | reported f => some f

/-- What the output shows of a line with a number. Nothing is shown of a blank line. -/
def shown (o : Options) (number : ℕ) (x : String) : String :=
  if isBlankLine x then "" else ((Source.line number x).present o).stdout

/-- Why a line with a number fails, if it does. A blank line does not. -/
def failure? (o : Options) (number : ℕ) (x : String) : Option Failure :=
  if isBlankLine x then none else ((Source.line number x).present o).failure

/-- What is told about a line with a number: the events that are asked for, and a report if it
fails. Nothing is told about a blank line. -/
def entries (o : Options) (number : ℕ) (x : String) : List Entry :=
  if isBlankLine x then []
  else
    (Event.atLeast o.threshold ((Source.line number x).present o).events).map .logged ++
      (failure? o number x).toList.map .reported

/-- **What is written for an input that has the lines `ls`.** A line goes by its place among all
lines, blank ones too. -/
structure Transcript (o : Options) (ls : List String) (r : Outcome) : Prop where
  /-- A prompt stands before what is shown of each line, and one more before the end. -/
  stdout : r.stdout =
    String.join ((ls.zipIdx 1).map fun p => "$ " ++ shown o p.2 (stripLineEnd p.1)) ++ "$ " ++ "\n"
  stderr : r.stderr =
    String.join (((ls.zipIdx 1).flatMap fun p => entries o p.2 (stripLineEnd p.1)).map Entry.text)
  /-- The reports are those of the lines that fail, in order. -/
  reports : ((ls.zipIdx 1).flatMap fun p => entries o p.2 (stripLineEnd p.1)).filterMap
    Entry.failure? = (ls.zipIdx 1).filterMap fun p => failure? o p.2 (stripLineEnd p.1)
  code : r.code = 0

variable {o : Options}

theorem stdout_reply (n : ℕ) (x : String) : (reply o n x).stdout = shown o n x := by
  rw [reply, shown]
  split
  · rfl
  · rfl

theorem told_reply (n : ℕ) (x : String) :
    told o (reply o n x) = String.join ((entries o n x).map Entry.text) := by
  rw [reply, entries, failure?]
  split
  · rfl
  · rw [told, Presentation.logText]
    cases ((Source.line n x).present o).failure <;>
      simp [Entry.text, Function.comp_def, String.join_append]

theorem filterMap_entries (n : ℕ) (x : String) :
    (entries o n x).filterMap Entry.failure? = (failure? o n x).toList := by
  rw [entries, failure?]
  split
  · rfl
  · cases ((Source.line n x).present o).failure <;>
      simp [Entry.failure?, Function.comp_def]

/-- What comes of some lines, each with its number. -/
theorem replies_eq_map (n : ℕ) (xs : List String) :
    replies o n xs = (xs.zipIdx (n + 1)).map fun p => reply o p.2 p.1 := by
  induction xs generalizing n with
  | nil => rfl
  | cons x xs ih => rw [replies, List.zipIdx_cons, List.map_cons, ih]

theorem join_map_join (f : String × ℕ → List String) (ps : List (String × ℕ)) :
    String.join (ps.map fun p => String.join (f p)) = String.join (ps.flatMap f) := by
  induction ps with
  | nil => rfl
  | cons p ps ih => simp [ih, String.join_append]

/-- Lines that are text are written down one by one. -/
theorem transcript_converse {bs : List UInt8} {ls : List String}
    (h : (physicalLines bs).map lineText? = (ls.map stripLineEnd).map some) :
    Transcript o ls (converse o 0 (physicalLines bs)) := by
  have hreplies : replies o 0 (ls.map stripLineEnd) =
      (ls.zipIdx 1).map fun p => reply o p.2 (stripLineEnd p.1) := by
    rw [replies_eq_map, List.zipIdx_map, List.map_map]
    rfl
  rw [converse_eq h, hreplies]
  refine ⟨?_, ?_, ?_, rfl⟩
  · simp only [printed, List.map_map, Function.comp_def, stdout_reply]
    rfl
  · simp only [toldAll, List.map_map, Function.comp_def, told_reply]
    rw [join_map_join, List.map_flatMap]
  · rw [List.filterMap_flatMap, List.filterMap_eq_flatMap_toList]
    simp only [filterMap_entries]

end Prompt

/-- **A run without an expression answers an input that is text line by line**, to its end. -/
theorem run_transcript {args : List String} {o : Options} {bs : List UInt8} {x : String}
    (ho : Options.ofArguments args = .ok o) (he : o.expr = none) (hx : textOfBytes? bs = some x) :
    (∃ ls, LinesOf x.toList ls) ∧
      ∀ ls, LinesOf x.toList ls → Prompt.Transcript o ls (run args bs) := by
  refine ⟨exists_linesOf x.toList, fun ls hls => ?_⟩
  rw [run_eq_converse ho he]
  exact Prompt.transcript_converse (hls.map_lineText? hx)

/-- A let form fails, `2 * $` is reported about, and a blank line counts. -/
theorem run_transcript_mixed : Options.ofArguments [] = .ok {} ∧ ({} : Options).expr = none ∧
    textOfBytes? (bytesOf "2*$\n \n(let ((x 1)) x)".toList) = some "2*$\n \n(let ((x 1)) x)" ∧
    LinesOf "2*$\n \n(let ((x 1)) x)".toList ["2*$\n", " \n", "(let ((x 1)) x)"] ∧
    Prompt.Transcript {} ["2*$\n", " \n", "(let ((x 1)) x)"]
      (run [] (bytesOf "2*$\n \n(let ((x 1)) x)".toList)) := by
  have hx : textOfBytes? (bytesOf "2*$\n \n(let ((x 1)) x)".toList) =
      some "2*$\n \n(let ((x 1)) x)" := textOfBytes?_eq_some_iff.2 rfl
  have hls : LinesOf "2*$\n \n(let ((x 1)) x)".toList ["2*$\n", " \n", "(let ((x 1)) x)"] :=
    .line (l := "2*$".toList) (by decide) <| .line (l := [' ']) (by decide) <|
      .last (l := "(let ((x 1)) x)".toList) (by decide) (by decide)
  exact ⟨rfl, rfl, hx, hls, (run_transcript rfl rfl hx).2 _ hls⟩

end ArithLine

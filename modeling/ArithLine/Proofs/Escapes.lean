import ArithLine.Proofs.Controls
import Mathlib.Data.List.Chain

/-!
# Colours are nothing but escapes

A screen with colours shows what one without them shows, and escapes around it. Each of the three
printers starts and ends its style in a place of its own, and a line may fail between two of them.
All the same, the escapes of an output are whole groups, each a style and its reset.

* `Screen.marks`: the characters and the escapes of a text. `Screen.strip` deletes the escapes and
  `Screen.escapes` lists their codes.
* `Segment.marks_render`: output is read segment by segment if its texts have no escapes.
* `Screen.Balanced`: codes of styles that are each ended by a reset.
* `Source.ColoursOnly`, `Source.coloursOnly`: what colours add to the output of a source.
-/

namespace ArithLine

namespace Screen

/-! ## Characters and escapes -/

/-- What a screen with colours takes: a character, or an escape with a code. -/
inductive Mark where
  | shown (c : Char)
  | escape (code : String)

/-- Whether a character may stand in a code. -/
def isParameter (c : Char) : Bool := c.isDigit || c == ';'

/-- The code of the escape that some characters start with, and what follows the escape. -/
def escape? : List Char → Option (String × List Char)
  | '\x1b' :: '[' :: cs =>
    match cs.dropWhile isParameter with
    | 'm' :: rest => some (.ofList (cs.takeWhile isParameter), rest)
    | _ => none
  | _ => none

/-- An escape is a sequence whose code is of parameters. -/
theorem escape?_eq_some_iff {cs rest : List Char} {code : String} :
    escape? cs = some (code, rest) ↔
      cs = (Segment.sequence code).toList ++ rest ∧ code.toList.all isParameter := by
  have hsequence : (Segment.sequence code).toList ++ rest =
      '\x1b' :: '[' :: (code.toList ++ 'm' :: rest) := by
    simp [Segment.sequence]
  rw [hsequence]
  constructor
  · intro h
    unfold escape? at h
    split at h
    · next cs =>
      split at h
      · next rest' hdrop =>
        obtain ⟨rfl, rfl⟩ := Prod.mk.inj (Option.some.inj h)
        rw [String.toList_ofList, ← hdrop, List.takeWhile_append_dropWhile]
        exact ⟨rfl, List.all_takeWhile⟩
      · cases h
    · cases h
  · rintro ⟨rfl, hcode⟩
    -- the letter that ends the sequence is no parameter
    have hm : isParameter 'm' = false := by decide
    have hparameters := List.all_eq_true.1 hcode
    rw [escape?, List.dropWhile_append_of_pos hparameters, List.takeWhile_append_of_pos hparameters,
      List.dropWhile_cons, List.takeWhile_cons, hm]
    simp

theorem length_lt_of_escape? {cs rest : List Char} {code : String}
    (h : escape? cs = some (code, rest)) : rest.length < cs.length := by
  obtain ⟨rfl, -⟩ := escape?_eq_some_iff.1 h
  simp only [Segment.sequence, String.toList_append, List.length_append, String.length_toList]
  have hstart : "\x1b[".length = 2 := by decide
  omega

/-- The characters of a text that are no part of an escape, and its escapes. -/
def marks : List Char → List Mark
  | [] => []
  | c :: cs =>
    match _h : escape? (c :: cs) with
    | some (code, rest) => .escape code :: marks rest
    | none => .shown c :: marks cs
termination_by cs => cs.length
decreasing_by
  · exact length_lt_of_escape? _h
  · exact Nat.lt_succ_self _

/-- The character that a mark shows. -/
def Mark.shown? : Mark → Option Char
  | shown c => some c
  | escape _ => none

/-- The code of an escape. -/
def Mark.code? : Mark → Option String
  | shown _ => none
  | escape code => some code

/-- A text with all escapes deleted. -/
def strip (x : String) : String := .ofList ((marks x.toList).filterMap Mark.shown?)

/-- The codes of the escapes in a text, in order. -/
def escapes (x : String) : List String := (marks x.toList).filterMap Mark.code?

theorem marks_cons_of_ne {c : Char} (hc : c ≠ '\x1b') (cs : List Char) :
    marks (c :: cs) = .shown c :: marks cs := by
  have hnone : escape? (c :: cs) = none := by
    unfold escape?
    split
    · next heq => exact absurd (List.cons.inj heq).1 hc
    · rfl
  rw [marks]
  split
  · next h => cases hnone.symm.trans h
  · rfl

/-- Characters that start no escape show as themselves. -/
theorem marks_append {cs : List Char} (hcs : '\x1b' ∉ cs) (rest : List Char) :
    marks (cs ++ rest) = cs.map .shown ++ marks rest := by
  induction cs with
  | nil => rfl
  | cons c cs ih =>
    rw [List.mem_cons, not_or] at hcs
    rw [List.cons_append, marks_cons_of_ne (Ne.symm hcs.1), ih hcs.2]
    rfl

/-- A sequence is read as an escape, whatever follows it. -/
theorem marks_sequence {code : String} (hcode : code.toList.all isParameter) (rest : List Char) :
    marks ((Segment.sequence code).toList ++ rest) = .escape code :: marks rest := by
  have hescape : escape? ((Segment.sequence code).toList ++ rest) = some (code, rest) :=
    escape?_eq_some_iff.2 ⟨rfl, hcode⟩
  cases htext : (Segment.sequence code).toList ++ rest with
  | nil => simp [Segment.sequence] at htext
  | cons c cs =>
    rw [htext] at hescape
    rw [marks]
    split
    · next h =>
      obtain ⟨rfl, rfl⟩ := Prod.mk.inj (Option.some.inj (hescape.symm.trans h))
      rfl
    · next h => cases hescape.symm.trans h

end Screen

open Screen (Mark)

/-! ## Segments -/

/-- The codes that set a style, from a plain one. -/
def Style.codes (st : Style) : List String :=
  "0" :: ((if st.bold then ["1"] else []) ++ [st.colour.code])

namespace Segment

/-- The codes of a segment. -/
def codes : Segment → List String
  | text _ => []
  | paint st => st.codes
  | reset => ["0"]

/-- The characters and the escapes of a segment. -/
def marks : Segment → List Mark
  | text x => x.toList.map .shown
  | s => s.codes.map .escape

theorem marks_paint (st : Style) (rest : List Char) :
    Screen.marks ((paint st).escaped.toList ++ rest) =
      (paint st).marks ++ Screen.marks rest := by
  have hcolour : st.colour.code.toList.all Screen.isParameter := by
    cases st.colour <;> decide
  obtain ⟨colour, bold⟩ := st
  cases bold with
  | true =>
    have htext : (paint ⟨colour, true⟩).escaped.toList ++ rest = (sequence "0").toList ++
        ((sequence "1").toList ++ ((sequence colour.code).toList ++ rest)) := by
      simp [escaped]
    rw [htext, Screen.marks_sequence (by decide), Screen.marks_sequence (by decide),
      Screen.marks_sequence hcolour]
    rfl
  | false =>
    have htext : (paint ⟨colour, false⟩).escaped.toList ++ rest = (sequence "0").toList ++
        ((sequence colour.code).toList ++ rest) := by
      simp [escaped]
    rw [htext, Screen.marks_sequence (by decide), Screen.marks_sequence hcolour]
    rfl

theorem marks_escaped {s : Segment} (h : ∀ x, s = .text x → '\x1b' ∉ x.toList) (rest : List Char) :
    Screen.marks (s.escaped.toList ++ rest) = s.marks ++ Screen.marks rest := by
  cases s with
  | text x => exact Screen.marks_append (h x rfl) rest
  | paint st => exact marks_paint st rest
  | reset => exact Screen.marks_sequence (by decide) rest

variable {ss : List Segment}

/-- **Output is read segment by segment** if its texts have no escapes of their own. -/
theorem marks_render (h : ∀ x, .text x ∈ ss → '\x1b' ∉ x.toList) :
    Screen.marks (render true ss).toList = ss.flatMap marks := by
  induction ss with
  | nil => simp [render, Screen.marks]
  | cons s ss ih =>
    have hrest := ih fun x hx => h x (List.mem_cons_of_mem _ hx)
    have hfirst : ∀ x, s = .text x → '\x1b' ∉ x.toList := fun x hx =>
      h x (hx ▸ List.mem_cons_self)
    have htext : (render true (s :: ss)).toList = s.escaped.toList ++ (render true ss).toList := by
      simp [render]
    rw [htext, marks_escaped hfirst, hrest, List.flatMap_cons]

theorem filterMap_shown? (s : Segment) : s.marks.filterMap Mark.shown? = s.plain.toList := by
  have hnone : ∀ codes : List String, (codes.map Mark.escape).filterMap Mark.shown? = [] := by
    intro codes
    rw [List.filterMap_map]
    exact List.filterMap_eq_nil_iff.2 fun _ _ => rfl
  cases s with
  | text x =>
    rw [marks, List.filterMap_map]
    exact List.filterMap_some
  | paint st => exact hnone _
  | reset => exact hnone _

theorem filterMap_code? (s : Segment) : s.marks.filterMap Mark.code? = s.codes := by
  have hall : ∀ codes : List String, (codes.map Mark.escape).filterMap Mark.code? = codes := by
    intro codes
    rw [List.filterMap_map]
    exact List.filterMap_some
  cases s with
  | text x =>
    rw [marks, List.filterMap_map]
    exact List.filterMap_eq_nil_iff.2 fun _ _ => rfl
  | paint st => exact hall _
  | reset => exact hall _

/-- Without its escapes, output is as it is without colours. -/
theorem strip_render (h : ∀ x, .text x ∈ ss → '\x1b' ∉ x.toList) :
    Screen.strip (render true ss) = render false ss := by
  have hplain : (render false ss).toList = ss.flatMap fun s => s.plain.toList := by
    simp [render, String.toList_join, List.flatMap_map]
  have hshown : (ss.flatMap marks).filterMap Mark.shown? = ss.flatMap fun s => s.plain.toList := by
    rw [List.filterMap_flatMap]
    exact List.flatMap_congr fun s _ => s.filterMap_shown?
  rw [Screen.strip, marks_render h, hshown, ← hplain, String.ofList_toList]

theorem escapes_render (h : ∀ x, .text x ∈ ss → '\x1b' ∉ x.toList) :
    Screen.escapes (render true ss) = ss.flatMap codes := by
  rw [Screen.escapes, marks_render h, List.filterMap_flatMap]
  exact List.flatMap_congr fun s _ => s.filterMap_code?

end Segment

/-! ## Groups of escapes -/

namespace Screen

/-- **Codes of styles that are each ended by a reset.** -/
inductive Balanced : List String → Prop
  | nil : Balanced []
  | group (st : Style) {codes : List String} (h : Balanced codes) :
    Balanced (st.codes ++ "0" :: codes)

/-- Whether a code sets a colour. -/
def IsColour (code : String) : Prop := ∃ c : Colour, code = c.code

namespace Balanced

variable {codes codes' : List String}

theorem append (h : Balanced codes) (h' : Balanced codes') : Balanced (codes ++ codes') := by
  induction h with
  | nil => exact h'
  | group st _ ih =>
    rw [List.append_assoc, List.cons_append]
    exact .group st ih

theorem single (st : Style) : Balanced (st.codes ++ ["0"]) := .group st .nil

/-- The last escape is a reset. -/
theorem eq_of_mem_getLast? (h : Balanced codes) : ∀ e ∈ codes.getLast?, e = "0" := by
  induction h with
  | nil => simp
  | @group st codes _ ih =>
    intro e he
    -- the last escape is the reset of this group if there is no other group
    rw [List.getLast?_append, List.getLast?_cons, Option.some_or] at he
    cases hlast : codes.getLast? with
    | none =>
      rw [hlast] at he
      exact (Option.some.inj he).symm
    | some e' =>
      rw [hlast] at he
      exact ih e (hlast ▸ he)

/-- A colour is followed by a reset. -/
theorem isChain (h : Balanced codes) : codes.IsChain fun e e' => IsColour e → e' = "0" := by
  have hplain : ∀ e ∈ ["0", "1"], ¬IsColour e := by
    rintro e he ⟨c, rfl⟩
    cases c <;> simp [Colour.code] at he
  induction h with
  | nil => exact .nil
  | @group st codes _ ih =>
    -- up to its colour a style has codes that set none, and its colour is followed by its reset
    have hrest : ("0" :: codes).IsChain fun e e' => IsColour e → e' = "0" :=
      ih.cons fun e _ h => absurd h (hplain "0" (by simp))
    obtain ⟨colour, bold⟩ := st
    cases bold with
    | true =>
      exact .cons_cons (fun h => absurd h (hplain "0" (by simp)))
        (.cons_cons (fun h => absurd h (hplain "1" (by simp))) (.cons_cons (fun _ => rfl) hrest))
    | false =>
      exact .cons_cons (fun h => absurd h (hplain "0" (by simp))) (.cons_cons (fun _ => rfl) hrest)

end Balanced

end Screen

open Screen (Balanced)

/-! ## Outputs -/

theorem Tree.balanced_segments (t : Tree) : Balanced (t.segments.flatMap Segment.codes) :=
  .single ⟨.cyan, false⟩

theorem Diagnostic.balanced_segments (d : Diagnostic) :
    Balanced (d.segments.flatMap Segment.codes) :=
  .single ⟨.yellow, true⟩

theorem Program.balanced_segments (p : Program) (f : Format) :
    Balanced ((p.segments f).flatMap Segment.codes) :=
  .single ⟨.green, true⟩

namespace Source

/-- Whatever comes of a source, no style is left open. -/
theorem balanced_output (s : Source) (o : Options) :
    Balanced ((s.present o).output.flatMap Segment.codes) := by
  refine output_of_parts (Q := fun ss => Balanced (ss.flatMap Segment.codes)) .nil
    (fun hss hus => ?_) (fun t _ => t.balanced_segments) (fun _ _ d _ => d.balanced_segments)
    fun p => p.balanced_segments o.format
  rw [List.flatMap_append]
  exact hss.append hus

/-- **Colours change nothing but escapes** in what is printed of a source. -/
structure ColoursOnly (s : Source) (o : Options) : Prop where
  /-- A source is read or fails alike. -/
  result : (s.printOn .coloured o "").1 = (s.printOn .monochrome o "").1
  /-- With the escapes deleted, the text is as it is without colours. -/
  stripped : Screen.strip (s.printOn .coloured o "").2 = (s.printOn .monochrome o "").2
  /-- The escapes are styles, each with its reset. -/
  balanced : Balanced (Screen.escapes (s.printOn .coloured o "").2)
  /-- So the last of them, if there is one, is a reset. -/
  last : ∀ e ∈ (Screen.escapes (s.printOn .coloured o "").2).getLast?, e = "0"
  /-- And what comes next after a colour is a reset. -/
  next : (Screen.escapes (s.printOn .coloured o "").2).IsChain fun e e' =>
    Screen.IsColour e → e' = "0"

theorem escape_notMem_output {s : Source} (h : '\x1b' ∉ s.content.toList) (o : Options) :
    ∀ x, .text x ∈ (s.present o).output → '\x1b' ∉ x.toList := fun _ hx hmem =>
  h (mem_content_of_control hx hmem (by decide) (by decide))

/-- **A source without escapes is printed alike with colours and without**, but for the escapes
that the colours take, also if it fails after some of it is printed. -/
theorem coloursOnly {s : Source} (h : '\x1b' ∉ s.content.toList) (o : Options) :
    s.ColoursOnly o := by
  have hclean := escape_notMem_output h o
  have hcoloured : (s.printOn .coloured o "").2 = Segment.render true (s.present o).output := by
    rw [printOn_eq, Screen.draw_coloured, String.empty_append]
  have hmonochrome : (s.printOn .monochrome o "").2 =
      Segment.render false (s.present o).output := by
    rw [printOn_eq, Screen.draw_monochrome, String.empty_append]
  have hbalanced : Balanced (Screen.escapes (s.printOn .coloured o "").2) := by
    rw [hcoloured, Segment.escapes_render hclean]
    exact s.balanced_output o
  refine ⟨?_, ?_, hbalanced, hbalanced.eq_of_mem_getLast?, hbalanced.isChain⟩
  · rw [printOn_eq, printOn_eq]
  · rw [hcoloured, hmonochrome, Segment.strip_render hclean]

/-- A line that is printed with its tree and a warning, and then fails. -/
theorem coloursOnly_letForm : '\x1b' ∉ (input "(let ((x 1)) x)").content.toList ∧
    (input "(let ((x 1)) x)").ColoursOnly { tree := true } ∧
    ((input "(let ((x 1)) x)").printOn .coloured { tree := true } "").1.toOption = none ∧
    Screen.escapes ((input "(let ((x 1)) x)").printOn .coloured { tree := true } "").2 =
      ["0", "36", "0", "0", "1", "33", "0"] := by
  have hclean : '\x1b' ∉ (input "(let ((x 1)) x)").content.toList := by decide
  have hcodes : ((input "(let ((x 1)) x)").present { tree := true }).output.flatMap Segment.codes =
      ["0", "36", "0", "0", "1", "33", "0"] := by decide +kernel
  refine ⟨hclean, coloursOnly hclean _, by decide +kernel, ?_⟩
  rw [printOn_eq, Screen.draw_coloured, String.empty_append,
    Segment.escapes_render (escape_notMem_output hclean _), hcodes]

end Source

end ArithLine

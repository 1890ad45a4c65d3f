import ArithLine.Proofs.Presentation
import ArithLine.Proofs.Transcript

/-!
# Warnings line by line

A warning ends with a newline and cites the word that it is about as it stands. A newline is no
blank, so a word may have one in it. Then its warning takes more than one line; all other warnings
take one each.

* `Diagnostic.OneLineEach`: a text has one line for each of some diagnostics.
* `Diagnostic.newlines_listing`, `Diagnostic.oneLineEach_listing_iff`: what the words that are cited
  make of the text that warns of them.
* `Tree.mem_text_of_reported`: what is cited stands in the tree.
* `Source.warnsInLines`: which sources are warned of line by line.
-/

namespace ArithLine

/-! ## Newlines -/

/-- The number of newlines in a text. -/
def newlines (x : String) : ℕ := x.toList.count '\n'

theorem newlines_append (x y : String) : newlines (x ++ y) = newlines x + newlines y := by
  rw [newlines, String.toList_append, List.count_append]
  rfl

theorem newlines_eq_zero {x : String} : newlines x = 0 ↔ '\n' ∉ x.toList := List.count_eq_zero

theorem newlines_ofNat (n : ℕ) : newlines (Numeral.ofNat n) = 0 := by
  rw [newlines_eq_zero, Numeral.ofNat, String.toList_ofList]
  intro h
  exact absurd (Nat.isDigit_of_mem_toDigits (by decide) (by decide) h) (by decide)

/-- There is no newline in a number. -/
theorem Numeral.IsLiteral.newline_notMem {cs : List Char} (h : IsLiteral cs) : '\n' ∉ cs := by
  obtain ⟨ds, hds, hcs⟩ := h
  have hdigits : '\n' ∉ ds := by
    intro hmem
    simp only [Word.isNumeral, Bool.and_eq_true, List.all_eq_true] at hds
    exact absurd (hds.2 _ hmem) (by decide)
  rcases hcs with rfl | rfl
  · exact hdigits
  · simpa using hdigits

/-- A text has a line for each newline in it, and maybe one more. -/
theorem LinesOf.count_le {cs : List Char} {ls : List String} (h : LinesOf cs ls) :
    cs.count '\n' ≤ ls.length := by
  induction h with
  | nil => exact le_rfl
  | last hne hl => simp [List.count_eq_zero.2 hl]
  | line hl h ih => simpa [List.count_append, List.count_eq_zero.2 hl] using ih

/-- Texts without newlines, each ended by one, are the lines of what they make up. -/
theorem linesOf_join {xs : List String} (h : ∀ x ∈ xs, '\n' ∉ x.toList) :
    LinesOf (String.join (xs.map (· ++ "\n"))).toList (xs.map (· ++ "\n")) := by
  induction xs with
  | nil => exact .nil
  | cons x xs ih =>
    rw [List.forall_mem_cons] at h
    have hrest := LinesOf.line h.1 (ih h.2)
    have hx : String.ofList (x.toList ++ ['\n']) = x ++ "\n" := by simp
    rw [hx] at hrest
    simpa using hrest

/-! ## The text of some warnings -/

namespace Diagnostic

/-- The word that a diagnostic cites. -/
def cited : Diagnostic → String
  | unhandledRule .. => ""
  | illegalTerminal s _ | badWord s _ => s

/-- What a warning starts with. -/
def heading (d : Diagnostic) : String :=
  "warning [at " ++ Numeral.ofNat d.span.start ++ "-" ++ Numeral.ofNat d.span.stop ++ "]:"

/-- The text that warns of some diagnostics, without colours. -/
def listing (ds : List Diagnostic) : String := Segment.render false (ds.flatMap segments)

/-- **Whether a text has one line for each of some diagnostics**, in order: it starts with the
heading of the diagnostic and is ended by a newline. -/
def OneLineEach (ds : List Diagnostic) (x : String) : Prop :=
  ∃ ls, LinesOf x.toList ls ∧
    List.Forall₂ (fun d l => ∃ rest, l = d.heading ++ rest ++ "\n") ds ls

theorem heading_eq (d : Diagnostic) : d.heading =
    "warning [at " ++ Numeral.ofNat d.span.start ++ "-" ++ Numeral.ofNat d.span.stop ++ "]:" := rfl

theorem entry_eq (d : Diagnostic) : d.entry false = d.heading ++ " " ++ d.message ++ "\n" := by
  have hentry : d.entry false = "warning" ++ " [at " ++ Numeral.ofNat d.span.start ++ "-" ++
    Numeral.ofNat d.span.stop ++ "]: " ++ d.message ++ "\n" := rfl
  rw [hentry, heading_eq, ← String.toList_inj]
  simp

theorem listing_eq (ds : List Diagnostic) : listing ds = String.join (ds.map (entry false)) := by
  rw [listing, Segment.render_flatMap]
  exact congrArg _ (List.map_congr_left fun d _ => d.render_segments false)

theorem newlines_name (r : Rule) : newlines r.name = 0 := by
  rw [newlines_eq_zero]
  rcases r with _ | _ | _ | _ | (_ | _ | _ | _) | _ <;> decide

/-- The newlines of a message are those of the word that it cites. -/
theorem newlines_message (d : Diagnostic) : newlines d.message = newlines d.cited := by
  have hunhandled : newlines
      "conversion error (from parse tree to AST): found unknown/unhandled case " = 0 := by
    decide +kernel
  have hillegal : newlines "illegal terminal " = 0 := by decide +kernel
  have hbad : newlines "parser error node: " = 0 := by decide +kernel
  cases d with
  | unhandledRule r sp =>
    refine (newlines_append _ r.name).trans ?_
    rw [hunhandled, newlines_name]
    rfl
  | illegalTerminal s sp =>
    refine (newlines_append _ s).trans ?_
    rw [hillegal, zero_add]
    rfl
  | badWord s sp =>
    refine (newlines_append _ s).trans ?_
    rw [hbad, zero_add]
    rfl

theorem newlines_heading (d : Diagnostic) : newlines d.heading = 0 := by
  simp only [heading_eq, newlines_append, newlines_ofNat]
  decide +kernel

theorem newlines_entry (d : Diagnostic) : newlines (d.entry false) = 1 + newlines d.cited := by
  have hspace : newlines " " = 0 := by decide
  have hend : newlines "\n" = 1 := by decide
  rw [entry_eq, newlines_append, newlines_append, newlines_append, newlines_heading, hspace,
    newlines_message, hend, zero_add, zero_add, add_comm]

/-- There is one newline for each warning, and those of the words that are cited. -/
theorem newlines_listing (ds : List Diagnostic) :
    newlines (listing ds) = ds.length + newlines (String.join (ds.map cited)) := by
  rw [listing_eq]
  induction ds with
  | nil => rfl
  | cons d ds ih =>
    rw [List.map_cons, List.map_cons, String.join_cons, String.join_cons, newlines_append,
      newlines_append, ih, newlines_entry, List.length_cons]
    omega

/-- No newline is cited in all just if none is cited anywhere. -/
theorem newlines_cited_eq_zero {ds : List Diagnostic} :
    newlines (String.join (ds.map cited)) = 0 ↔ ∀ d ∈ ds, '\n' ∉ d.cited.toList := by
  simp [newlines_eq_zero, String.toList_join]

/-- Warnings take one line each just if no newline is cited. -/
theorem oneLineEach_listing_iff (ds : List Diagnostic) :
    OneLineEach ds (listing ds) ↔ ∀ d ∈ ds, '\n' ∉ d.cited.toList := by
  constructor
  · rintro ⟨ls, hls, hall⟩ d hd
    -- there are no more newlines than lines, and the warnings themselves have as many
    have hcount : newlines (listing ds) ≤ ds.length := hall.length_eq ▸ hls.count_le
    rw [newlines_listing] at hcount
    exact newlines_cited_eq_zero.1 (by omega) d hd
  · intro h
    have hentries : ds.map (entry false) =
        (ds.map fun d => d.heading ++ " " ++ d.message).map (· ++ "\n") := by
      rw [List.map_map]
      exact List.map_congr_left fun d _ => d.entry_eq
    refine ⟨ds.map (entry false), ?_, ?_⟩
    · rw [listing_eq, hentries]
      refine linesOf_join fun x hx => ?_
      obtain ⟨d, hd, rfl⟩ := List.mem_map.1 hx
      have hspace : newlines " " = 0 := by simp [newlines]
      rw [← newlines_eq_zero, newlines_append, newlines_append, newlines_heading, hspace,
        newlines_message, newlines_eq_zero.2 (h d hd)]
    · rw [List.forall₂_map_right_iff, List.forall₂_same]
      intro d _
      exact ⟨" " ++ d.message, by rw [entry_eq, ← String.append_assoc]⟩

end Diagnostic

/-! ## The words of a tree -/

namespace Tree

mutual

/-- What is cited about a tree stands in it. -/
theorem mem_text_of_reported {d : Diagnostic} {c : Char} (hc : c ∈ d.cited.toList) :
    ∀ t : Tree, .reported d ∈ t.notes → c ∈ t.text.toList
  | node r ts sp, h => by
    have hall := mem_textAll_of_reported hc ts
    -- a node is reported itself only if it is not converted, and then nothing is cited
    have hself : ∀ r sp, d ≠ .unhandledRule r sp := by
      rintro r sp rfl
      cases hc
    rw [text]
    cases r with
    | var => cases ts <;> simp [notes, hself] at h
    | letForm => simp [notes, hself] at h
    | program => simp [notes, hself] at h
    | _ => exact hall (by simpa [notes] using h)
  | token s sp, h => by
    rw [notes] at h
    split at h
    · cases h
    · obtain rfl : d = .illegalTerminal s sp := by simpa using h
      exact hc
  | bad s sp, h => by
    obtain rfl : d = .badWord s sp := by simpa [notes] using h
    exact hc

theorem mem_textAll_of_reported {d : Diagnostic} {c : Char} (hc : c ∈ d.cited.toList) :
    ∀ ts : List Tree, .reported d ∈ notesAll ts → c ∈ (textAll ts).toList
  | [], h => by cases h
  | t :: ts, h => by
    rw [notesAll, List.mem_append] at h
    rw [textAll, String.toList_append, List.mem_append]
    exact h.imp (mem_text_of_reported hc t) (mem_textAll_of_reported hc ts)

end

/-- A token that is reported in an operand is a number. -/
theorem Means.isLiteral_of_reported {ts : List Tree} {m : Option Expr} (h : Means ts m) {s : String}
    {sp : Span} (hs : .reported (.illegalTerminal s sp) ∈ notesAll ts) :
    Numeral.IsLiteral s.toList := by
  induction h with
  | @number x sp' sp'' hx =>
    simp only [notesAll, notes, List.append_nil, List.mem_cons, reduceCtorEq, false_or] at hs
    split at hs
    · cases hs
    · obtain ⟨rfl, -⟩ : s = x ∧ sp = sp' := by simpa using hs
      exact hx
  | name x sp' sp'' => simp [notesAll, notes] at hs
  | unknown x sp' => simp [notesAll, notes] at hs
  | letForm ts sp' => simp [notesAll, notes] at hs
  | group sp' sp'' sp''' h ih =>
    refine ih ?_
    simpa [notesAll, notes, show isGlyph "(" by decide, show isGlyph ")" by decide] using hs
  | @chain o ts ms sp' hlen h ih =>
    have hmem : Note.reported (.illegalTerminal s sp) ∈ ts.flatMap notes := by
      simpa [notesAll, notes, notesAll_eq] using hs
    rw [flatMap_operandsOf o fun s sp hs => by rw [notes, hs]; rfl] at hmem
    obtain ⟨os, hos, hmem⟩ := List.mem_flatMap.1 hmem
    obtain ⟨m, hm⟩ := exists_mem_zip hlen hos
    exact ih _ hm (by rwa [notesAll_eq])

theorem mem_programDiagnostics {t : Tree} {d : Diagnostic} :
    d ∈ t.programDiagnostics ↔ .reported d ∈ t.programNotes := by
  rw [programDiagnostics, List.mem_filterMap]
  constructor
  · rintro ⟨n, hn, hd⟩
    cases n with
    | visited r k => cases hd
    | reported d' =>
      obtain rfl := Option.some.inj hd
      exact hn
  · exact fun h => ⟨_, h, rfl⟩

/-- A newline that is cited about a line is in a bad word. -/
theorem exists_badWord {line : String} {t : Tree} (ht : ofLine line = .ok t) {d : Diagnostic}
    (hd : d ∈ t.programDiagnostics) (hnl : '\n' ∈ d.cited.toList) : ∃ x sp, d = .badWord x sp := by
  obtain ⟨ts, sp, sp', m, rfl, hm⟩ := exists_means_of_ofLine ht
  rw [mem_programDiagnostics] at hd
  cases d with
  | unhandledRule r sp => cases hnl
  | illegalTerminal x sp =>
    have hx : .reported (.illegalTerminal x sp) ∈ notesAll ts := by
      simpa [programNotes, notes] using hd
    exact absurd hnl (hm.isLiteral_of_reported hx).newline_notMem
  | badWord x sp => exact ⟨x, sp, rfl⟩

/-- What is cited about a line stands in it. -/
theorem mem_line_of_cited {line : String} {t : Tree} (ht : ofLine line = .ok t) {d : Diagnostic}
    (hd : d ∈ t.programDiagnostics) {c : Char} (hc : c ∈ d.cited.toList) : c ∈ line.toList := by
  obtain ⟨ts, sp, sp', -, rfl, -⟩ := exists_means_of_ofLine ht
  have htext := mem_text_of_reported hc (node .expr ts sp) (mem_programDiagnostics.1 hd)
  have hline : c ∈ (node .program [node .expr ts sp] sp').text.toList := by
    rw [text, textAll, String.toList_append, List.mem_append]
    exact .inl htext
  rw [text_eq_of_ofLine ht, String.toList_ofList] at hline
  exact (List.mem_filter.1 hline).1

end Tree

/-! ## The warnings of a source -/

namespace Source

open Diagnostic

/-- **The text that warns of a source**, without colours. -/
structure WarnsInLines (s : Source) (t : Tree) : Prop where
  /-- It has an entry for each diagnostic, in order. -/
  entries : listing t.programDiagnostics = String.join
    (t.programDiagnostics.map fun d => d.heading ++ " " ++ d.message ++ "\n")
  /-- Each entry has a newline of its own, and those of the word that it cites. -/
  newlines : newlines (listing t.programDiagnostics) =
    t.programDiagnostics.length + newlines (String.join (t.programDiagnostics.map cited))
  /-- Each entry is a line just if no bad word has a newline in it. -/
  oneLineEach_iff : OneLineEach t.programDiagnostics (listing t.programDiagnostics) ↔
    ∀ x sp, .badWord x sp ∈ t.programDiagnostics → '\n' ∉ x.toList
  /-- So each is if the source is one line itself. -/
  ofLine : '\n' ∉ s.content.toList →
    OneLineEach t.programDiagnostics (listing t.programDiagnostics) ∧
      ArithLine.newlines (listing t.programDiagnostics) = t.programDiagnostics.length

/-- **A source is warned of line by line**, but for the newlines in its bad words. -/
theorem warnsInLines {s : Source} {t : Tree} (h : s.tree = .ok t) : s.WarnsInLines t := by
  have ht := tree_eq_ok_iff.1 h
  refine ⟨?_, newlines_listing _, ?_, fun hline => ?_⟩
  · rw [listing_eq]
    exact congrArg _ (List.map_congr_left fun d _ => d.entry_eq)
  · rw [oneLineEach_listing_iff]
    constructor
    · intro hall x sp hx
      exact hall _ hx
    · intro hall d hd hnl
      obtain ⟨x, sp, rfl⟩ := Tree.exists_badWord ht hd hnl
      exact hall x sp hd hnl
  · have hcited : ∀ d ∈ t.programDiagnostics, '\n' ∉ d.cited.toList := fun d hd hnl =>
      hline (Tree.mem_line_of_cited ht hd hnl)
    refine ⟨(oneLineEach_listing_iff _).2 hcited, ?_⟩
    rw [newlines_listing, newlines_cited_eq_zero.2 hcited, add_zero]

/-- Two words are warned of in two lines. -/
theorem warnsInLines_two : ∃ t, (input "$*9x").tree = .ok t ∧ (input "$*9x").WarnsInLines t ∧
    ArithLine.newlines (listing t.programDiagnostics) = 2 := by
  obtain ⟨t, ht, hlen⟩ : ∃ t, (input "$*9x").tree = .ok t ∧ t.programDiagnostics.length = 2 :=
    ⟨_, rfl, by decide⟩
  have h := warnsInLines ht
  exact ⟨t, ht, h, (h.ofLine (by decide)).2.trans hlen⟩

/-- A word with a newline in it is one diagnostic, but its warning is two lines. -/
theorem not_oneLineEach_newline : ∃ t, (input "$\n$").tree = .ok t ∧
    ¬ OneLineEach t.programDiagnostics (listing t.programDiagnostics) ∧
    ArithLine.newlines (listing t.programDiagnostics) ≠ t.programDiagnostics.length := by
  obtain ⟨t, ht, hds⟩ : ∃ t, (input "$\n$").tree = .ok t ∧
      t.programDiagnostics = [.badWord "$\n$" ⟨0, 3⟩] := ⟨_, rfl, rfl⟩
  refine ⟨t, ht, ?_, ?_⟩
  · rw [oneLineEach_listing_iff, hds]
    decide
  · rw [newlines_listing, hds]
    decide

end Source

end ArithLine

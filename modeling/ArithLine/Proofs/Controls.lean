import ArithLine.Proofs.Json.Stored
import ArithLine.Proofs.Layout
import ArithLine.Proofs.Screen
import ArithLine.Proofs.Warnings

/-!
# No control comes out of nothing

Whatever a source is, a control stands in its output only if it stands in the source, but for the
newlines that end lines. A program has none from its names either, in any format.

* `Throughout`: what holds of all characters of a text.
* `Json.IsWritten.throughout_render`, `Program.throughout_format`: programs.
* `Tree.throughout_dump`, `Diagnostic.throughout_message`: trees and diagnostics, which cite their
  line as it stands.
* `Source.mem_content_of_control`: the output of a source.
-/

namespace ArithLine

namespace Json

theorem le_toNat_hexDigit (n : ℕ) : 0x20 ≤ (hexDigit n).toNat := by
  have h : ∀ d < 16, 0x20 ≤ (Nat.digitChar d).toNat := by decide
  exact h _ (Nat.mod_lt _ (by decide))

theorem le_toNat_of_mem_escape {c d : Char} (h : d ∈ escape c) : 0x20 ≤ d.toNat := by
  unfold escape at h
  split at h
  case h_8 =>
    split at h
    case isTrue hc =>
      -- a control is written with the digits of its code point
      simp only [List.mem_cons, List.not_mem_nil, or_false] at h
      rcases h with rfl | rfl | rfl | rfl | rfl | rfl
      · decide
      · decide
      · decide
      · decide
      · exact le_toNat_hexDigit _
      · exact le_toNat_hexDigit _
    case isFalse hc =>
      rw [List.mem_singleton] at h
      subst h
      omega
  all_goals
    rw [List.mem_cons, List.mem_singleton] at h
    rcases h with rfl | rfl <;> decide

end Json

/-- Something that holds of all characters of a text. -/
def Throughout (P : Char → Prop) (x : String) : Prop := ∀ c ∈ x.toList, P c

section Throughout

variable {P : Char → Prop} {x y : String}

@[simp] theorem throughout_append : Throughout P (x ++ y) ↔ Throughout P x ∧ Throughout P y := by
  simp [Throughout, or_imp, forall_and]

theorem throughout_newline (hnewline : P '\n') : Throughout P "\n" := by
  simpa [Throughout] using hnewline

/-- What holds of all characters of a line holds of all that its tree has. -/
theorem Tree.throughout_text {line : String} {t : Tree} (ht : ofLine line = .ok t)
    (h : Throughout P line) : Throughout P t.text := by
  intro c hc
  rw [text_eq_of_ofLine ht, String.toList_ofList] at hc
  exact h c (List.mem_filter.1 hc).1

variable (hvisible : ∀ c : Char, 0x20 ≤ c.toNat → P c)

include hvisible

theorem throughout_of_all (h : x.toList.all (0x20 ≤ ·.toNat)) : Throughout P x := fun c hc =>
  hvisible c (of_decide_eq_true (List.all_eq_true.1 h c hc))

theorem throughout_ofInt (n : ℤ) : Throughout P (Numeral.ofInt n) := fun c hc =>
  hvisible c (Layout.le_toNat_of_isPlain (List.all_eq_true.1 (Numeral.isPlain_ofInt n).2 c hc))

theorem throughout_ofNat (n : ℕ) : Throughout P (Numeral.ofNat n) :=
  throughout_ofInt hvisible n

theorem throughout_name (r : Rule) : Throughout P r.name := by
  refine throughout_of_all hvisible ?_
  rcases r with _ | _ | _ | _ | (_ | _ | _ | _) | _ <;> decide +kernel

/-! ## Values -/

namespace Json

theorem throughout_quote (s : String) : Throughout P (quote s) := by
  intro c hc
  rw [quote, String.toList_ofList, encode, List.mem_cons, List.mem_append, List.mem_singleton,
    List.mem_flatMap] at hc
  rcases hc with rfl | ⟨d, -, hc⟩ | rfl
  · exact hvisible _ (by decide)
  · exact hvisible c (le_toNat_of_mem_escape hc)
  · exact hvisible _ (by decide)

theorem throughout_renderItems {vs : List Json} (h : ∀ v ∈ vs, Throughout P v.render) :
    Throughout P (renderItems vs) := by
  induction vs with
  | nil => exact throughout_of_all hvisible rfl
  | cons v vs ih =>
    have hv := h v List.mem_cons_self
    have hvs := ih fun w hw => h w (List.mem_cons_of_mem _ hw)
    have hcomma : Throughout P "," := throughout_of_all hvisible (by decide)
    cases vs with
    | nil => exact hv
    | cons w vs => simpa [renderItems, hv, hcomma] using hvs

theorem throughout_renderFields {fs : List (String × Json)}
    (h : ∀ f ∈ fs, Throughout P f.2.render) : Throughout P (renderFields (named fs)) := by
  induction fs with
  | nil => exact throughout_of_all hvisible rfl
  | cons f fs ih =>
    have hkey := throughout_quote hvisible f.1
    have hf := h f List.mem_cons_self
    have hfs := ih fun g hg => h g (List.mem_cons_of_mem _ hg)
    have hcolon : Throughout P ":" := throughout_of_all hvisible (by decide)
    have hcomma : Throughout P "," := throughout_of_all hvisible (by decide)
    cases fs with
    | nil => simpa [renderFields, hkey, hcolon] using hf
    | cons g fs => simpa [renderFields, hkey, hcolon, hf, hcomma] using hfs

/-- **No control stands in a written value.** -/
theorem IsWritten.throughout_render {j : Json} (h : j.IsWritten) : Throughout P j.render := by
  induction h with
  | int n =>
    rw [Json.int, render, String.ofList_toList]
    exact throughout_ofInt hvisible n
  | text s => exact throughout_quote hvisible s
  | array _ ih =>
    have hopen : Throughout P "[" := throughout_of_all hvisible (by decide)
    have hclose : Throughout P "]" := throughout_of_all hvisible (by decide)
    rw [render, throughout_append, throughout_append]
    exact ⟨⟨hopen, throughout_renderItems hvisible ih⟩, hclose⟩
  | record _ ih =>
    have hopen : Throughout P "\x7b" := throughout_of_all hvisible (by decide)
    have hclose : Throughout P "\x7d" := throughout_of_all hvisible (by decide)
    rw [Json.record, render, throughout_append, throughout_append]
    exact ⟨⟨hopen, throughout_renderFields hvisible ih⟩, hclose⟩

end Json

/-! ## Programs, trees and diagnostics -/

/-- **No control but the newline stands in a written program.** -/
theorem Program.throughout_format (hnewline : P '\n') (p : Program) (f : Format) :
    Throughout P (p.format f) := by
  have hlegible := p.body.legible_layout
  cases f with
  | inline => exact fun c hc => hvisible c (hlegible.le_toNat_of_mem_inline hc)
  | indented =>
    intro c hc
    rcases hlegible.of_mem_indented hc with h | rfl
    · exact hvisible c h
    · exact hnewline
  | json => exact (faithful.isWritten p).throughout_render hvisible

mutual

/-- What a dump adds to the words of a line is visible. -/
theorem Tree.throughout_dump : ∀ t : Tree, Throughout P t.text → Throughout P t.dump
  | .node r [] _, _ => throughout_name hvisible r
  | .node r (t :: ts) _, h => by
    have hopen : Throughout P "(" := throughout_of_all hvisible (by decide)
    have hclose : Throughout P ")" := throughout_of_all hvisible (by decide)
    have hall := Tree.throughout_dumpAll (t :: ts) h
    have hname := throughout_name hvisible r
    simp [Tree.dump, hopen, hname, hall, hclose]
  | .token _ _, h => h
  | .bad _ _, h => h

theorem Tree.throughout_dumpAll : ∀ ts : List Tree, Throughout P (Tree.textAll ts) →
    Throughout P (Tree.dumpAll ts)
  | [], h => h
  | t :: ts, h => by
    have hspace : Throughout P " " := throughout_of_all hvisible (by decide)
    rw [Tree.textAll, throughout_append] at h
    rw [Tree.dumpAll, throughout_append, throughout_append]
    exact ⟨⟨hspace, Tree.throughout_dump t h.1⟩, Tree.throughout_dumpAll ts h.2⟩

end

theorem Diagnostic.throughout_message (d : Diagnostic) (h : Throughout P d.cited) :
    Throughout P d.message := by
  cases d with
  | unhandledRule r sp =>
    exact throughout_append.2
      ⟨throughout_of_all hvisible (by decide +kernel), throughout_name hvisible r⟩
  | illegalTerminal s sp =>
    exact throughout_append.2 ⟨throughout_of_all hvisible (by decide +kernel), h⟩
  | badWord s sp =>
    exact throughout_append.2 ⟨throughout_of_all hvisible (by decide +kernel), h⟩

theorem Diagnostic.throughout_segments (hnewline : P '\n') {d : Diagnostic}
    (h : Throughout P d.cited) : ∀ x, .text x ∈ d.segments → Throughout P x := by
  intro x hx
  simp only [segments, List.mem_cons, Segment.text.injEq, reduceCtorEq, List.not_mem_nil,
    false_or, or_false] at hx
  rcases hx with rfl | rfl
  · exact throughout_of_all hvisible (by decide +kernel)
  · simp only [throughout_append]
    refine ⟨⟨⟨⟨⟨⟨?_, throughout_ofNat hvisible _⟩, ?_⟩, throughout_ofNat hvisible _⟩, ?_⟩,
      d.throughout_message hvisible h⟩, throughout_newline hnewline⟩
    · exact throughout_of_all hvisible (by decide +kernel)
    · exact throughout_of_all hvisible (by decide +kernel)
    · exact throughout_of_all hvisible (by decide +kernel)

theorem Tree.throughout_segments (hnewline : P '\n') {t : Tree} (h : Throughout P t.text) :
    ∀ x, .text x ∈ t.segments → Throughout P x := by
  intro x hx
  simp only [segments, List.mem_cons, Segment.text.injEq, reduceCtorEq, List.not_mem_nil,
    false_or, or_false] at hx
  rcases hx with rfl | rfl
  · exact throughout_of_all hvisible (by decide +kernel)
  · have hspace : Throughout P " " := throughout_of_all hvisible (by decide +kernel)
    simp only [throughout_append]
    exact ⟨⟨hspace, t.throughout_dump hvisible h⟩, throughout_newline hnewline⟩

theorem Program.throughout_segments (hnewline : P '\n') {p : Program} {f : Format} :
    ∀ x, .text x ∈ p.segments f → Throughout P x := by
  intro x hx
  simp only [segments, List.mem_cons, Segment.text.injEq, reduceCtorEq, List.not_mem_nil,
    false_or, or_false] at hx
  subst hx
  exact throughout_append.2 ⟨p.throughout_format hvisible hnewline f, throughout_newline hnewline⟩

/-! ## Outputs -/

/-- What holds of a source, of all that is visible and of the newline holds of the output. -/
theorem Source.throughout_output (hnewline : P '\n') {s : Source} (h : Throughout P s.content)
    (o : Options) : ∀ x, .text x ∈ (s.present o).output → Throughout P x := by
  refine output_of_parts (Q := fun ss => ∀ x, .text x ∈ ss → Throughout P x)
    (fun x hx => ?_) (fun hss hus x hx => ?_) (fun t ht => ?_) (fun t ht d hd => ?_) fun p => ?_
  · cases hx
  · exact (List.mem_append.1 hx).elim (hss x) (hus x)
  · exact Tree.throughout_segments hvisible hnewline
      (Tree.throughout_text (tree_eq_ok_iff.1 ht) h)
  · exact Diagnostic.throughout_segments hvisible hnewline fun c hc =>
      h c (Tree.mem_line_of_cited (tree_eq_ok_iff.1 ht) hd hc)
  · exact Program.throughout_segments hvisible hnewline

end Throughout

/-- **A control in an output stands in the source**, if it is not the newline. -/
theorem Source.mem_content_of_control {s : Source} {o : Options} {x : String}
    (hx : .text x ∈ (s.present o).output) {c : Char} (hc : c ∈ x.toList)
    (hcontrol : c.toNat < 0x20) (hnewline : c ≠ '\n') : c ∈ s.content.toList := by
  let P (d : Char) : Prop := d.toNat < 0x20 → d ≠ '\n' → d ∈ s.content.toList
  have hvisible : ∀ d : Char, 0x20 ≤ d.toNat → P d := fun d hd h => absurd hd (by omega)
  have hsource : Throughout P s.content := fun d hd _ _ => hd
  exact throughout_output hvisible (fun _ h => absurd rfl h) hsource o x hx c hc hcontrol hnewline

end ArithLine

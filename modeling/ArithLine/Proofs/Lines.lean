import ArithLine.Session
import Mathlib.Data.List.DropRight

/-!
# The lines of an input

* `Cuts`: the lines that some bytes consist of. A line goes on up to a newline, which
  belongs to it; the last line may have none.
* `cuts_physicalLines`, `Cuts.cutLine_eq`: all lines at once, or one line after another,
  are these lines.
* `Strips`: a text without the line ends after it.
-/

namespace ArithLine

/-- **The lines of some bytes**, each with its end. -/
inductive Cuts : List UInt8 → List (List UInt8) → Prop
  | nil : Cuts [] []
  | last {l : List UInt8} (hne : l ≠ []) (hl : newline ∉ l) : Cuts l [l]
  | line {l bs : List UInt8} {ls : List (List UInt8)} (hl : newline ∉ l) (h : Cuts bs ls) :
    Cuts (l ++ newline :: bs) ((l ++ [newline]) :: ls)

namespace Cuts

variable {bs : List UInt8} {l : List UInt8} {ls : List (List UInt8)}

theorem flatten_eq (h : Cuts bs ls) : ls.flatten = bs := by
  induction h with
  | nil => rfl
  | last => simp
  | line _ _ ih => simp [ih]

/-- A line has at least its end. -/
theorem ne_nil_of_mem (h : Cuts bs ls) : ∀ l ∈ ls, l ≠ [] := by
  induction h with
  | nil => exact fun _ hl => absurd hl List.not_mem_nil
  | last hne => exact fun l hl => List.mem_singleton.1 hl ▸ hne
  | line _ _ ih => exact List.forall_mem_cons.2 ⟨by simp, ih⟩

/-- A byte that is no newline belongs to the first line. -/
theorem cons_of_ne (h : Cuts bs ls) {b : UInt8} (hb : b ≠ newline) :
    Cuts (b :: bs) ((b :: ls.head?.getD []) :: ls.tail) := by
  have hmem : ∀ {l : List UInt8}, newline ∉ l → newline ∉ b :: l := fun hl hmem =>
    (List.mem_cons.1 hmem).elim (fun h => hb h.symm) hl
  cases h with
  | nil => exact .last (List.cons_ne_nil b []) (hmem List.not_mem_nil)
  | last _ hl => exact .last (List.cons_ne_nil b _) (hmem hl)
  | line hl h => exact .line (hmem hl) h

theorem cutLine_of_notMem (hl : newline ∉ l) : cutLine l = (l, []) := by
  induction l with
  | nil => rfl
  | cons b l ih =>
    rw [List.mem_cons, not_or] at hl
    rw [cutLine, if_neg (Ne.symm hl.1), ih hl.2]

theorem cutLine_append_newline (hl : newline ∉ l) (bs : List UInt8) :
    cutLine (l ++ newline :: bs) = (l ++ [newline], bs) := by
  induction l with
  | nil => rfl
  | cons b l ih =>
    rw [List.mem_cons, not_or] at hl
    rw [List.cons_append, cutLine, if_neg (Ne.symm hl.1), ih hl.2]
    rfl

/-- The first line of some bytes, and all others. -/
theorem cutLine_eq (h : Cuts bs ls) : cutLine bs = (ls.head?.getD [], ls.tail.flatten) := by
  cases h with
  | nil => rfl
  | last _ hl => exact cutLine_of_notMem hl
  | line hl h => rw [cutLine_append_newline hl, ← h.flatten_eq]; rfl

/-- The lines after the first are the lines of the bytes after it. -/
theorem tail (h : Cuts bs ls) : Cuts ls.tail.flatten ls.tail := by
  cases h with
  | nil => exact .nil
  | last => exact .nil
  | line _ h => rw [List.tail_cons, h.flatten_eq]; exact h

end Cuts

/-- **Bytes are cut after each newline.** -/
theorem cuts_physicalLines (bs : List UInt8) : Cuts bs (physicalLines bs) := by
  induction bs with
  | nil => exact .nil
  | cons b bs ih =>
    rw [physicalLines, List.foldr_cons, ← physicalLines]
    split
    · next hb =>
      subst hb
      exact .line (l := []) List.not_mem_nil ih
    · next hb =>
      have h := ih.cons_of_ne hb
      cases hls : physicalLines bs <;> rwa [hls] at h

/-- Whether a character ends a line. -/
def IsLineEnd (c : Char) : Prop := c = '\n' ∨ c = '\r'

/-- Whether a text is another without the line ends after it. -/
def Strips (x y : String) : Prop :=
  ∃ ends, x.toList = y.toList ++ ends ∧ (∀ c ∈ ends, IsLineEnd c) ∧
    ∀ c ∈ y.toList.getLast?, ¬ IsLineEnd c

theorem strips_stripLineEnd (x : String) : Strips x (stripLineEnd x) := by
  let p : Char → Bool := fun c => c == '\n' || c == '\r'
  have hp : ∀ c, p c ↔ IsLineEnd c := fun c => by simp [p, IsLineEnd]
  have hstrip : (stripLineEnd x).toList = x.toList.rdropWhile p := by
    rw [stripLineEnd, String.toList_ofList, List.rdropWhile]
  refine ⟨x.toList.rtakeWhile p, ?_, fun c hc => ?_, fun c hc => ?_⟩
  · rw [hstrip, List.rdropWhile, List.rtakeWhile, ← List.reverse_append,
      List.takeWhile_append_dropWhile, List.reverse_reverse]
  · exact (hp c).1 (List.mem_rtakeWhile_imp hc)
  · rw [hstrip] at hc
    have hlast : x.toList.rdropWhile p ≠ [] := by
      intro h
      rw [h] at hc
      cases hc
    have hnot := List.rdropWhile_last_not p x.toList hlast
    rw [List.getLast?_eq_some_getLast hlast] at hc
    rw [← hp, ← Option.some.inj hc]
    exact hnot

end ArithLine

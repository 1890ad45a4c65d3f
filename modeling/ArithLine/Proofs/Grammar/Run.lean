import ArithLine.Proofs.Grammar.Lexing
import ArithLine.Tree.OfLine

/-!
# Runs of the reader

* `Unfinished.run`: the steps for some tokens, one after another. Reading a line is a run
  over its tokens and what finishes it (`read_eq_ok_iff`).
* `run_opened`: a parenthesis that opens an operand stands for a group, until the reserved
  word with a parenthesis after it shows that it opens a let form.
* `run_of_splits`: where a minus can be read as an operator, its digits are an operand. So
  a run does not tell whether a minus was set apart from the digits that it touches.
-/

namespace ArithLine

namespace Unfinished

/-- What has been read after some tokens, if none of them is refused. -/
def run (u : Unfinished) (ts : List Token) : Option Unfinished := ts.foldlM step u

@[simp] theorem run_nil (u : Unfinished) : u.run [] = some u := rfl

@[simp] theorem run_cons (u : Unfinished) (t : Token) (ts : List Token) :
    u.run (t :: ts) = (u.step t).bind (run · ts) := rfl

theorem run_append (u : Unfinished) (ts us : List Token) :
    u.run (ts ++ us) = (u.run ts).bind (run · us) := by
  unfold run; rw [List.foldlM_append]; rfl

theorem read_eq_ok_iff {length : ℕ} {u : Unfinished} {ts : List Token} {t : Tree} :
    u.read length ts = .ok t ↔ ∃ v, u.run ts = some v ∧ v.finish? length = some t := by
  induction ts generalizing u with
  | nil =>
    unfold read
    split
    · next h => simp [h]
    · next h => simp [h]
  | cons a ts ih =>
    unfold read
    split
    · next h => rw [ih, run_cons, h]; rfl
    · next h => simp [h]

/-- A parenthesis that opens an operand leaves the same choice as the parenthesis of a
group, but for the reserved word with a parenthesis after it. -/
theorem run_opened {s : List Frame} {l : Level} {o : Tree} {t : Token} {ts : List Token}
    {v : Unfinished} (h : (operand (.group l o :: s) {}).run (t :: ts) = some v) (hts : ts ≠ []) :
    (opened s l o).run (t :: ts) = some v := by
  obtain ⟨a, as, rfl⟩ := List.exists_cons_of_ne_nil hts
  rw [run_cons] at h ⊢
  by_cases ht : t.lexeme = .word Word.reserved
  · -- in a group the reserved word is an unknown word, and no parenthesis opens after it
    have h1 : (operand (.group l o :: s) {}).step t =
        some (ended (.group l o :: s) {} [t.operand]) := by
      simp [step, stepOperand, ht]
    have h2 : (opened s l o).step t = some (reserved s l o t) := by simp [step, ht]
    rw [h1, Option.bind_some, run_cons] at h
    rw [h2, Option.bind_some, run_cons]
    have ha : a.lexeme ≠ .glyph .opening := by
      intro ha; simp [step, stepEnded, ha] at h
    rw [show (reserved s l o t).step a = (ended (.group l o :: s) {} [t.operand]).step a by
      simp [step, ha]]
    exact h
  · rw [show (opened s l o).step t = (operand (.group l o :: s) {}).step t by simp [step, ht]]
    exact h

/-- After an operand, a minus with digits is an operator and the digits an operand. -/
theorem stepEnded_signed {s : List Frame} {l : Level} {os : List Tree} {t : Token} {ds : List Char}
    (ht : t.lexeme = .signed ds) :
    stepEnded s l os t = (stepEnded s l os ⟨.glyph (.op .sub), t.start⟩).bind
      (·.step ⟨.word ds, t.start + 1⟩) := by
  simp only [stepEnded, ht]
  cases l.operator? os .sub ⟨.glyph (.op .sub), t.start⟩ <;> rfl

/-- A minus that is an operator leaves the digits that it touches to be read as an operand. -/
theorem step_signed {u v : Unfinished} {ds : List Char} {n : ℕ}
    (h : u.step ⟨.glyph (.op .sub), n⟩ = some v) :
    u.step ⟨.signed ds, n⟩ = v.step ⟨.word ds, n + 1⟩ := by
  cases u with
  | ended s l ts =>
    simp only [step] at h ⊢
    rw [stepEnded_signed rfl, h]; rfl
  | reserved s l o w =>
    simp only [step, reduceCtorEq, if_false, Lexeme.glyph.injEq] at h ⊢
    rw [stepEnded_signed rfl, h]; rfl
  | _ => simp [step, stepOperand] at h

/-- Setting a minus apart from its digits changes nothing where that is possible. -/
theorem run_of_splits {u v : Unfinished} {ts us : List Token} (hs : Splits ts us)
    (h : u.run ts = some v) : u.run us = some v := by
  induction hs generalizing u with
  | nil => exact h
  | same t _ ih =>
    rw [run_cons, Option.bind_eq_some_iff] at h ⊢
    obtain ⟨w, hw, h⟩ := h
    exact ⟨w, hw, ih h⟩
  | minus n ds _ ih =>
    rw [run_cons, Option.bind_eq_some_iff] at h ⊢
    obtain ⟨w, hw, h⟩ := h
    rw [run_cons, Option.bind_eq_some_iff] at h
    obtain ⟨x, hx, h⟩ := h
    exact ⟨x, by rw [step_signed hw, hx], ih h⟩

end Unfinished

end ArithLine

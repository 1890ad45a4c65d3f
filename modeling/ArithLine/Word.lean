/-!
# Words

A word is a run of characters with no blank, parenthesis or operator in it. Its
class is decided by ASCII characters alone: digits make a numeral, a letter
followed by letters, digits and underscores makes a name, and every other word
is unknown. The word `let` is reserved and no name.
-/

namespace ArithLine

/-- Whether a character separates words without being a token. -/
def isBlank (c : Char) : Bool := c == ' ' || c == '\t'

/-- What a word stands for where an operand is wanted. -/
inductive WordClass where
  | numeral
  | name
  | unknown
  deriving DecidableEq, Repr, Inhabited

namespace Word

/-- The reserved word that opens a let form. -/
def reserved : List Char := ['l', 'e', 't']

/-- One or more ASCII digits. -/
def isNumeral (w : List Char) : Bool := !w.isEmpty && w.all Char.isDigit

/-- Whether a character may stand in a name after its first letter. -/
def isNameChar (c : Char) : Bool := c.isAlphanum || c == '_'

/-- An ASCII letter followed by ASCII letters, digits and underscores, other than
the reserved word. -/
def isName : List Char → Bool
  | [] => false
  | c :: r => c.isAlpha && r.all isNameChar && c :: r != reserved

/-- The class of a word. -/
def classify (w : List Char) : WordClass :=
  if isNumeral w then .numeral else if isName w then .name else .unknown

theorem classify_reserved : classify reserved = .unknown := by decide

theorem classify_eq_numeral_iff {w : List Char} : classify w = .numeral ↔ isNumeral w := by
  unfold classify; repeat' split <;> simp_all

/-- No word is both a numeral and a name. -/
theorem not_isName_of_isNumeral {w : List Char} (h : isNumeral w) : isName w = false := by
  rcases w with _ | ⟨c, r⟩
  · simp [isNumeral] at h
  · have hc : c.isDigit := by simp [isNumeral] at h; exact h.1
    have hle : c.val ≤ '9'.val := of_decide_eq_true (Bool.and_eq_true_iff.1 hc).2
    have hletter : ∀ b : UInt32, '9'.val < b → ¬ b ≤ c.val := fun b hb hbc =>
      absurd (UInt32.le_trans hbc hle) (UInt32.not_le.2 hb)
    have halpha : ¬ c.isAlpha := fun ha =>
      match Bool.or_eq_true_iff.1 ha with
      | .inl hu => hletter 'A'.val (by decide) (of_decide_eq_true hu).1
      | .inr hl => hletter 'a'.val (by decide) (of_decide_eq_true (Bool.and_eq_true_iff.1 hl).1)
    simp [isName, halpha]

theorem classify_eq_name_iff {w : List Char} : classify w = .name ↔ isName w := by
  unfold classify
  split
  · next h => simp [not_isName_of_isNumeral h]
  · split <;> simp_all

end Word

end ArithLine

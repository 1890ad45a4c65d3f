import ArithLine.Word

/-!
# Numerals

Whole numbers in decimal, and their 64-bit form. Reading allows one sign and any
number of leading zeros; writing uses neither a plus nor a leading zero.
-/

namespace ArithLine.Numeral

/-- The value of some decimal digits. -/
def value (ds : List Char) : Nat := ds.foldl (fun n d => 10 * n + (d.toNat - '0'.toNat)) 0

/-- The value of an optional sign and one or more digits. -/
def toInt? (cs : List Char) : Option Int :=
  match cs with
  | '+' :: ds => if Word.isNumeral ds then some (value ds) else none
  | '-' :: ds => if Word.isNumeral ds then some (-(value ds : Int)) else none
  | ds => if Word.isNumeral ds then some (value ds) else none

/-- Whether a number fits in 64 bits with a sign. -/
def isWord (n : Int) : Bool := Int64.minValue.toInt ≤ n && n ≤ Int64.maxValue.toInt

/-- A number as a 64-bit word, if it fits. -/
def toWord? (n : Int) : Option Int64 := if isWord n then some (.ofInt n) else none

/-- The 64-bit word that some characters write. -/
def read? (cs : List Char) : Option Int64 := (toInt? cs).bind toWord?

/-- The digits of a natural number. -/
def ofNat (n : Nat) : String := .ofList (Nat.toDigits 10 n)

/-- A minus, if the number is negative, and its digits. -/
def ofInt (n : Int) : String := if n < 0 then "-" ++ ofNat n.natAbs else ofNat n.natAbs

/-- Every 64-bit word fits. -/
theorem isWord_toInt (n : Int64) : isWord n.toInt :=
  Bool.and_eq_true_iff.2 ⟨decide_eq_true n.minValue_le_toInt, decide_eq_true n.toInt_le⟩

theorem toWord?_toInt (n : Int64) : toWord? n.toInt = some n := by
  simp [toWord?, isWord_toInt]

end ArithLine.Numeral

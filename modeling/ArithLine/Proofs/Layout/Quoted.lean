import ArithLine.Json.Token
import ArithLine.Text.Quoted
import Mathlib.Data.Nat.Basic

/-!
# Quoted text is read back

Between its quotes, a text may hold quotes, backslashes, line breaks and what looks like an escape.
It can be read off all the same, and the end of it too.

* `Quoted.unescape`: the first character of some that are escaped, and what is left of them.
  `Quoted.unescape_escape` says that it reads back what is escaped.
* `Quoted.encode_append_inj`: so a quoted text and what follows it tell which text is quoted.
* `Quoted.le_toNat_of_mem_encode`: no control stands between quotes.
-/

namespace ArithLine.Quoted

/-! ## Code points -/

/-- The number that some hexadecimal digits write. -/
def hexNumber (ds : List Char) : ℕ := ds.foldl (fun n d => 16 * n + (Json.hexValue? d).getD 0) 0

theorem hexValue?_digitChar {d : ℕ} (h : d < 16) : Json.hexValue? (Nat.digitChar d) = some d := by
  have hall : ∀ d < 16, Json.hexValue? (Nat.digitChar d) = some d := by decide
  exact hall d h

/-- A number is read back from its hexadecimal digits. -/
theorem hexNumber_toDigits (n : ℕ) : hexNumber (Nat.toDigits 16 n) = n := by
  induction n using Nat.strong_induction_on with
  | _ n ih =>
    by_cases h : n < 16
    · rw [Nat.toDigits_of_lt_base h, hexNumber, List.foldl_cons, List.foldl_nil,
        hexValue?_digitChar h]
      simp
    · have hinit := ih (n / 16) (by omega)
      rw [hexNumber] at hinit
      rw [Nat.toDigits_of_base_le (by decide) (by omega), hexNumber, List.foldl_append, hinit,
        List.foldl_cons, List.foldl_nil, hexValue?_digitChar (Nat.mod_lt _ (by decide)),
        Option.getD_some]
      omega

/-- Hexadecimal digits show as themselves, and none of them closes a brace. -/
theorem of_mem_toDigits {n : ℕ} {c : Char} (h : c ∈ Nat.toDigits 16 n) :
    0x20 ≤ c.toNat ∧ c ≠ '\x7d' := by
  have hall : ∀ d < 16, 0x20 ≤ (Nat.digitChar d).toNat ∧ Nat.digitChar d ≠ '\x7d' := by decide
  induction n using Nat.strong_induction_on with
  | _ n ih =>
    by_cases hn : n < 16
    · rw [Nat.toDigits_of_lt_base hn, List.mem_singleton] at h
      exact h ▸ hall n hn
    · rw [Nat.toDigits_of_base_le (by decide) (by omega), List.mem_append, List.mem_singleton] at h
      rcases h with h | rfl
      · exact ih (n / 16) (by omega) h
      · exact hall _ (Nat.mod_lt _ (by decide))

/-! ## Escapes -/

/-- The character that a letter after a backslash stands for. -/
def named? : Char → Option Char
  | '"' => some '"'
  | '\\' => some '\\'
  | 'n' => some '\n'
  | 'r' => some '\r'
  | 't' => some '\t'
  | '0' => some '\x00'
  | _ => none

/-- The first character of an escaped text, and what is left of the text. -/
def unescape : List Char → Option (Char × List Char)
  | [] => none
  | '\\' :: 'u' :: '\x7b' :: cs =>
    some (.ofNat (hexNumber (cs.takeWhile (· != '\x7d'))), (cs.dropWhile (· != '\x7d')).tail)
  | '\\' :: d :: cs => (named? d).map (·, cs)
  | c :: cs => some (c, cs)

/-- A character that has no escape shows as itself. -/
theorem unescape_cons {c : Char} (hc : c ≠ '\\') (cs : List Char) :
    unescape (c :: cs) = some (c, cs) := by
  unfold unescape
  split <;> simp_all

/-- A code point is read back from its digits between braces. -/
theorem unescape_codePoint (c : Char) (rest : List Char) :
    unescape ('\\' :: 'u' :: '\x7b' :: (Nat.toDigits 16 c.toNat ++ '\x7d' :: rest)) =
      some (c, rest) := by
  have hdigits : ∀ d ∈ Nat.toDigits 16 c.toNat, d != '\x7d' := fun d hd =>
    bne_iff_ne.2 (of_mem_toDigits hd).2
  have hbrace : ('\x7d' != '\x7d') = false := rfl
  rw [unescape, List.takeWhile_append_of_pos hdigits, List.dropWhile_append_of_pos hdigits,
    List.takeWhile_cons, List.dropWhile_cons, hbrace]
  simp [hexNumber_toDigits]

/-- **A character is read back from its escape**, whatever follows it. -/
theorem unescape_escape (c : Char) (rest : List Char) :
    unescape (escape c ++ rest) = some (c, rest) := by
  unfold escape
  split
  case h_7 hquote hslash _ _ _ _ =>
    split
    · exact unescape_cons hslash rest
    · rw [List.cons_append, List.cons_append, List.cons_append, List.append_assoc]
      exact unescape_codePoint c rest
  all_goals rfl

/-! ## Quotes -/

/-- An escaped character never starts as the closing quote does. -/
theorem head?_escape (c : Char) : (escape c).head?.any (· != '"') := by
  unfold escape
  split
  case h_7 hquote _ _ _ _ _ =>
    split
    · simpa using hquote
    · rfl
  all_goals rfl

theorem flatMap_escape_append_inj {xs ys r r' : List Char}
    (h : xs.flatMap escape ++ '"' :: r = ys.flatMap escape ++ '"' :: r') : xs = ys ∧ r = r' := by
  have hquote : ∀ (c : Char) (cs t : List Char), '"' :: t ≠ escape c ++ cs := by
    intro c cs t heq
    have hhead := head?_escape c
    cases hc : escape c with
    | nil => simp [hc] at hhead
    | cons d ds =>
      rw [hc, List.cons_append, List.cons.injEq] at heq
      rw [hc, ← heq.1] at hhead
      cases hhead
  induction xs generalizing ys with
  | nil =>
    cases ys with
    | nil => exact ⟨rfl, (List.cons.inj h).2⟩
    | cons y ys =>
      rw [List.flatMap_cons, List.append_assoc] at h
      exact absurd h (hquote y _ _)
  | cons x xs ih =>
    cases ys with
    | nil =>
      rw [List.flatMap_cons, List.append_assoc] at h
      exact absurd h.symm (hquote x _ _)
    | cons y ys =>
      -- the first characters are what both texts start with when their escapes are undone
      rw [List.flatMap_cons, List.flatMap_cons, List.append_assoc, List.append_assoc] at h
      have hread := congrArg unescape h
      rw [unescape_escape, unescape_escape, Option.some.injEq, Prod.mk.injEq] at hread
      obtain ⟨hxs, hr⟩ := ih hread.2
      exact ⟨congrArg₂ _ hread.1 hxs, hr⟩

/-- **A quoted text ends where it ends**, and what is between the quotes is read back. -/
theorem encode_append_inj {xs ys r r' : List Char} (h : encode xs ++ r = encode ys ++ r') :
    xs = ys ∧ r = r' := by
  rw [encode, encode, List.cons_append, List.cons_append, List.append_assoc, List.append_assoc,
    List.cons.injEq] at h
  exact flatMap_escape_append_inj h.2

theorem le_toNat_of_mem_escape {c d : Char} (h : d ∈ escape c) : 0x20 ≤ d.toNat := by
  have hprinted : ∀ e ∈ ['\\', '"', 'n', 'r', 't', '0', 'u', '\x7b', '\x7d'], 0x20 ≤ e.toNat := by
    simp
  unfold escape at h
  split at h
  case h_7 =>
    split at h
    case isTrue hc =>
      rw [List.mem_singleton] at h
      subst h
      unfold isVisible at hc
      split at hc
      · exact of_decide_eq_true hc
      · omega
    case isFalse =>
      simp only [List.mem_cons, List.mem_append, List.not_mem_nil, or_false] at h
      rcases h with rfl | rfl | rfl | h | rfl
      · exact hprinted _ (by decide)
      · exact hprinted _ (by decide)
      · exact hprinted _ (by decide)
      · exact (of_mem_toDigits h).1
      · exact hprinted _ (by decide)
  all_goals
    rw [List.mem_cons, List.mem_singleton] at h
    rcases h with rfl | rfl <;> decide

/-- **No control stands between quotes**, nor outside them. -/
theorem le_toNat_of_mem_encode {cs : List Char} {d : Char} (h : d ∈ encode cs) :
    0x20 ≤ d.toNat := by
  rw [encode, List.mem_cons, List.mem_append, List.mem_singleton, List.mem_flatMap] at h
  rcases h with rfl | ⟨c, -, hd⟩ | rfl
  · decide
  · exact le_toNat_of_mem_escape hd
  · decide

end ArithLine.Quoted

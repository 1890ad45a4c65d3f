import ArithLine.Proofs.Grammar.Spacing
import ArithLine.Proofs.OrderedChoice.Laws

/-!
# Tokens with ordered choice

A token ends where no character goes on with it, so whether it matches is a question about the
longest word at its place.

* `Cursor.word`, `Cursor.afterWord`: the longest word at a place, and the place after it.
* `Matches`: a pattern that takes the whole word if this passes a test, and fails if not.
* `matches_name`, `matches_reserved`, `matches_unknown` and `runs_numeral`: the tests of the
  tokens.
-/

namespace ArithLine.OrderedChoice

open Pattern

namespace Cursor

/-- The longest word at a place. -/
def word (c : Cursor) : List Char := c.rest.takeWhile isWordChar

/-- The place after the longest word. -/
def afterWord (c : Cursor) : Cursor := ⟨c.pos + byteLength c.word, c.rest.dropWhile isWordChar⟩

theorem word_append (c : Cursor) : c.word ++ c.afterWord.rest = c.rest :=
  List.takeWhile_append_dropWhile

theorem word_eq_nil_iff {c : Cursor} : c.word = [] ↔ c.rest.head?.any isWordChar = false := by
  rw [word]
  cases c.rest with
  | nil => simp
  | cons x r =>
    rw [List.takeWhile_cons, List.head?_cons, Option.any_some]
    cases isWordChar x <;> simp

theorem head?_afterWord (c : Cursor) : c.afterWord.rest.head?.any isWordChar = false := by
  have h := List.head?_dropWhile_not isWordChar c.rest
  rw [afterWord]
  cases hr : c.rest.dropWhile isWordChar with
  | nil => rfl
  | cons x r =>
    rw [hr] at h
    simpa using h

end Cursor

variable {c : Cursor} {a : Attempts} {x : Char} {r : List Char} {e : Pattern} {p q : Char → Bool}

/-! ## Characters -/

/-- A pattern for one character of a kind. -/
structure OneOf (e : Pattern) (p : Char → Bool) : Prop where
  takes : ∀ {c : Cursor} {x : Char} {r : List Char} {a : Attempts}, c.rest = x :: r → p x →
    Runs true e c a (.done ⟨c.pos + x.utf8Size, r⟩ [] a)
  fails : ∀ {c : Cursor} {a : Attempts}, c.rest.head?.any p = false → Runs true e c a (.fail a)

theorem oneOf_one (p : Char → Bool) : OneOf (.one p) p := ⟨.one, .one_fail⟩

theorem oneOf_wordChar : OneOf wordChar isWordChar where
  takes {c x r a} h hx := by
    have hsep : c.rest.head?.any (fun c => isBlank c || (Glyph.ofChar? c).isSome) = false := by
      simp [h, isBlank_of_isWordChar hx, ofChar?_of_isWordChar hx]
    exact .seq (.not (.one_fail hsep)) (.one h rfl)
  fails {c a} h := by
    cases hc : c.rest with
    | nil =>
      have hsep : c.rest.head?.any (fun c => isBlank c || (Glyph.ofChar? c).isSome) = false := by
        simp [hc]
      exact .seq (.not (.one_fail hsep)) (.one_fail (by simp [Cursor.next, hc]))
    | cons x r =>
      have hx : (isBlank x || (Glyph.ofChar? x).isSome) = true := by
        simp only [hc, List.head?_cons, Option.any_some, isWordChar] at h
        cases hb : isBlank x <;> simp_all
      exact .seq_fail (.not_fail (.one hc hx))

theorem OneOf.star (he : OneOf e p) (c : Cursor) (a : Attempts) :
    Runs true (.star e) c a
      (.done ⟨c.pos + byteLength (c.rest.takeWhile p), c.rest.dropWhile p⟩ [] a) := by
  refine Runs.star_of_again ?_ rfl
  obtain ⟨n, cs⟩ := c
  induction cs generalizing n with
  | nil => exact .again_none (he.fails rfl)
  | cons x cs ih =>
    cases hx : p x with
    | true =>
      have hone : Runs true e (Cursor.next true ⟨n, x :: cs⟩) a (.done ⟨n + x.utf8Size, cs⟩ [] a) :=
        he.takes rfl hx
      simpa [hx, Nat.add_assoc] using Runs.again hone (ih (n + x.utf8Size))
    | false => simpa [hx] using Runs.again_none (he.fails (c := ⟨n, x :: cs⟩) (by simp [hx]))

/-! ## Words -/

/-- A pattern that takes the longest word at its place if this passes a test, and fails if not. -/
structure Matches (e : Pattern) (test : List Char → Bool) : Prop where
  takes : ∀ {c : Cursor} {a : Attempts}, test c.word → Runs true e c a (.done c.afterWord [] a)
  fails : ∀ {c : Cursor} {a : Attempts}, test c.word = false → Runs true e c a (.fail a)

/-- The first characters of a kind are a whole word just if all of its characters are. -/
theorem dropWhile_eq (hp : ∀ x, p x → isWordChar x) (cs : List Char) :
    if (cs.takeWhile isWordChar).all p then
      cs.takeWhile p = cs.takeWhile isWordChar ∧ cs.dropWhile p = cs.dropWhile isWordChar ∧
        (cs.dropWhile p).head?.any isWordChar = false
    else (cs.dropWhile p).head?.any isWordChar := by
  induction cs with
  | nil => simp
  | cons x cs ih =>
    cases hw : isWordChar x with
    | false =>
      have hpx : p x = false := by
        cases h : p x with
        | false => rfl
        | true => rw [hp x h] at hw; cases hw
      simp [hw, hpx]
    | true =>
      cases hpx : p x with
      | false => simp [hw, hpx]
      | true =>
        simp only [List.takeWhile_cons, List.dropWhile_cons, hw, hpx, if_true, List.all_cons,
          Bool.true_and, List.cons.injEq, true_and]
        exact ih

theorem OneOf.matches_star (he : OneOf e p) (hp : ∀ x, p x → isWordChar x) :
    Matches (seq (.star e) (.not wordChar)) (·.all p) where
  takes {c a} h := by
    have heq := dropWhile_eq hp c.rest
    rw [if_pos (by exact h)] at heq
    obtain ⟨htake, hdrop, hend⟩ := heq
    have hstar := he.star c a
    rw [htake, hdrop] at hstar
    rw [hdrop] at hend
    exact .seq hstar (.not (oneOf_wordChar.fails hend))
  fails {c a} h := by
    have heq := dropWhile_eq hp c.rest
    rw [← Cursor.word, if_neg (by simpa using h)] at heq
    cases hrest : c.rest.dropWhile p with
    | nil => simp [hrest] at heq
    | cons x r =>
      have hx : isWordChar x := by simpa [hrest] using heq
      exact .seq (he.star c a) (.not_fail (oneOf_wordChar.takes hrest hx))

/-- A first character and others to the end of the word. -/
theorem OneOf.matches_seq {f : Pattern} {test : List Char → Bool} (he : OneOf e p)
    (hp : ∀ x, p x → isWordChar x) (hf : Matches f test) :
    Matches (seq e f) fun w => w.head?.any p && test w.tail where
  takes {c a} h := by
    cases hc : c.rest with
    | nil => simp [Cursor.word, hc] at h
    | cons x r =>
      cases hw : isWordChar x with
      | false => simp [Cursor.word, hc, hw] at h
      | true =>
        have hafter : c.afterWord = Cursor.afterWord ⟨c.pos + x.utf8Size, r⟩ := by
          simp [Cursor.afterWord, Cursor.word, hc, hw, Nat.add_assoc]
        simp only [Cursor.word, hc, List.takeWhile_cons, hw, if_true, List.head?_cons,
          Option.any_some, List.tail_cons, Bool.and_eq_true] at h
        rw [hafter]
        exact .seq (he.takes hc h.1) (hf.takes h.2)
  fails {c a} h := by
    cases hc : c.rest with
    | nil => exact .seq_fail (he.fails (by simp [hc]))
    | cons x r =>
      cases hx : p x with
      | false => exact .seq_fail (he.fails (by simp [hc, hx]))
      | true =>
        simp only [Cursor.word, hc, List.takeWhile_cons, hp x hx, if_true, List.head?_cons,
          Option.any_some, hx, List.tail_cons, Bool.true_and] at h
        exact .seq (he.takes hc hx) (hf.fails h)

/-! ## The tokens -/

theorem isWordChar_of_isAlpha {x : Char} (h : x.isAlpha) : isWordChar x :=
  isWordChar_of_isNameChar (by simp [Word.isNameChar, Char.isAlphanum, h])

theorem isNumeral_eq (w : List Char) :
    Word.isNumeral w = (w.head?.any Char.isDigit && w.tail.all Char.isDigit) := by
  cases w <;> simp [Word.isNumeral]

theorem isName_eq (w : List Char) :
    Word.isName w =
      (w != Word.reserved && (w.head?.any Char.isAlpha && w.tail.all Word.isNameChar)) := by
  cases w with
  | nil => rfl
  | cons x w => simp [Word.isName, Bool.and_comm]

theorem matches_unsigned : Matches (word Char.isDigit Char.isDigit) Word.isNumeral := by
  have h := (oneOf_one Char.isDigit).matches_seq (fun _ => isWordChar_of_isDigit)
    ((oneOf_one Char.isDigit).matches_star fun _ => isWordChar_of_isDigit)
  rw [funext isNumeral_eq]
  exact h

theorem matches_reserved : Matches (body .reserved) (· == Word.reserved) where
  takes {c a} h := by
    have hword : c.word = Word.reserved := by simpa using h
    have htext : Runs true (.text Word.reserved) c a (.done c.afterWord [] a) := by
      rw [Cursor.afterWord, hword]
      exact .text (hword ▸ c.word_append.symm)
    exact .seq htext (.not (oneOf_wordChar.fails c.head?_afterWord))
  fails {c a} h := by
    by_cases hp : Word.reserved <+: c.rest
    · obtain ⟨r, hr⟩ := hp
      have hall : ∀ x ∈ Word.reserved, isWordChar x :=
        List.all_eq_true.1 (show Word.reserved.all isWordChar = true by decide)
      have hword : c.word = Word.reserved ++ r.takeWhile isWordChar := by
        rw [Cursor.word, ← hr, List.takeWhile_append_of_pos hall]
      have hne : c.word ≠ Word.reserved := by simpa using h
      cases r with
      | nil => exact absurd hword hne
      | cons x s =>
        cases hx : isWordChar x with
        | true => exact .seq (.text hr.symm) (.not_fail (oneOf_wordChar.takes rfl hx))
        | false =>
          rw [List.takeWhile_cons, hx] at hword
          exact absurd hword hne
    · exact .seq_fail (.text_fail hp)

theorem matches_name : Matches (body .name) Word.isName := by
  have h := (oneOf_one Char.isAlpha).matches_seq (fun _ => isWordChar_of_isAlpha)
    ((oneOf_one Word.isNameChar).matches_star fun _ => isWordChar_of_isNameChar)
  rw [funext isName_eq]
  refine ⟨fun {c a} hw => ?_, fun {c a} hw => ?_⟩
  · rw [Bool.and_eq_true] at hw
    have hreserved : (c.word == Word.reserved) = false := by simpa using hw.1
    exact .seq (.not (.call_token (matches_reserved.fails hreserved))) (h.takes hw.2)
  · cases hr : c.word == Word.reserved with
    | true => exact .seq_fail (.not_fail (.call_token (matches_reserved.takes hr)))
    | false =>
      have htest : (c.word.head?.any Char.isAlpha && c.word.tail.all Word.isNameChar) = false := by
        simpa [bne, hr] using hw
      exact .seq (.not (.call_token (matches_reserved.fails hr))) (h.fails htest)

theorem matches_unknown : Matches (body .unknown) (!·.isEmpty) where
  takes {c a} h := by
    cases hc : c.rest with
    | nil => simp [Cursor.word, hc] at h
    | cons x r =>
      cases hx : isWordChar x with
      | false => simp [Cursor.word, hc, hx] at h
      | true =>
        have hafter : c.afterWord = ⟨c.pos + x.utf8Size + byteLength (r.takeWhile isWordChar),
            r.dropWhile isWordChar⟩ := by
          simp [Cursor.afterWord, Cursor.word, hc, hx, Nat.add_assoc]
        rw [hafter]
        exact .seq (oneOf_wordChar.takes hc hx) (oneOf_wordChar.star ⟨c.pos + x.utf8Size, r⟩ a)
  fails {c a} h := by
    refine .seq_fail (oneOf_wordChar.fails ?_)
    cases hc : c.rest with
    | nil => rfl
    | cons x r =>
      by_contra hx
      simp only [List.head?_cons, Option.any_some, Bool.not_eq_false] at hx
      simp [Cursor.word, hc, hx] at h

/-- A numeral may start with a minus. Then its digits are the word after the minus. -/
theorem runs_numeral {d : Cursor} (hd : c.rest = '-' :: d.rest ∧ d.pos = c.pos + 1 ∨
      c.rest.head? ≠ some '-' ∧ d = c) (a : Attempts) :
    Runs true (body .numeral) c a
      (if Word.isNumeral d.word then .done d.afterWord [] a else .fail a) := by
  have hopt : Runs true (.opt (.text ['-'])) c a (.done d [] a) := by
    rcases hd with ⟨hc, hpos⟩ | ⟨hc, rfl⟩
    · have : d = ⟨c.pos + byteLength ['-'], d.rest⟩ := by
        rw [show byteLength ['-'] = 1 from rfl, ← hpos]
      rw [this]
      exact .opt (.text hc)
    · exact .opt_none (.text_fail fun ⟨r, hr⟩ => hc (by rw [← hr]; rfl))
  split
  · next h => exact .seq hopt (matches_unsigned.takes h)
  · next h =>
    have htest : Word.isNumeral d.word = false := by simpa using h
    exact .seq hopt (matches_unsigned.fails htest)

/-! ## Tokens outside of tokens -/

theorem lt_afterWord (h : c.word ≠ []) : c.pos < c.afterWord.pos := by
  obtain ⟨x, w, hw⟩ := List.exists_cons_of_ne_nil h
  rw [Cursor.afterWord, hw, byteLength_cons]
  exact Nat.lt_add_of_pos_right (Nat.add_pos_left x.utf8Size_pos _)

theorem length_afterWord_lt (h : c.word ≠ []) : c.afterWord.rest.length < c.rest.length := by
  rw [← c.word_append, List.length_append]
  exact Nat.lt_add_of_pos_left (List.length_pos_iff.2 h)

theorem lt_skip_afterWord (h : c.word ≠ []) : c.pos < c.afterWord.skip.pos :=
  (lt_afterWord h).trans_le c.afterWord.pos_le_skip

theorem length_skip_afterWord_lt (h : c.word ≠ []) :
    c.afterWord.skip.rest.length < c.rest.length :=
  c.afterWord.length_skip_le.trans_lt (length_afterWord_lt h)

theorem passes_word {t : Expected} {test : List Char → Bool} (ht : isToken t)
    (hm : Matches (body t) test) (h : test c.word) :
    Passes (call t) c c.afterWord [.mk t c.word ⟨c.pos, c.afterWord.pos⟩ []] {} := by
  have := passes_of_runs (r := t) (c := c) fun a => ht ▸ hm.takes h
  rwa [show c.upTo c.afterWord = c.word from Cursor.upTo_of_append c.word_append.symm _] at this

theorem fails_word {t : Expected} {test : List Char → Bool} (ht : isToken t)
    (hm : Matches (body t) test) (h : test c.word = false) : Fails (call t) c ⟨c.pos, [t]⟩ :=
  fails_of_runs fun _ => ht ▸ hm.fails h

theorem passes_numeral {d : Cursor} (hd : c.rest = '-' :: d.rest ∧ d.pos = c.pos + 1 ∨
      c.rest.head? ≠ some '-' ∧ d = c) (h : Word.isNumeral d.word) :
    Passes (call .numeral) c d.afterWord
      [.mk .numeral (c.upTo d.afterWord) ⟨c.pos, d.afterWord.pos⟩ []] {} :=
  passes_of_runs fun a => by
    have := runs_numeral hd a
    rwa [if_pos h] at this

theorem fails_numeral {d : Cursor} (hd : c.rest = '-' :: d.rest ∧ d.pos = c.pos + 1 ∨
      c.rest.head? ≠ some '-' ∧ d = c) (h : Word.isNumeral d.word = false) :
    Fails (call .numeral) c ⟨c.pos, [.numeral]⟩ :=
  fails_of_runs fun a => by
    have := runs_numeral hd a
    rwa [if_neg (by simp [h])] at this

end ArithLine.OrderedChoice

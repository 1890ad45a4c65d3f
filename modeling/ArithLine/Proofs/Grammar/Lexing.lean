import ArithLine.Proofs.Grammar.Spacing

/-!
# The tokens of a line

* `Piece.Attaches`: what a character makes of the pieces that follow it. A line is cut into
  pieces from its end, so a word grows at its front.
* `covers_place`: the tokens of a line cover it.
* `Covers.splits`: any other tokens that cover it differ from these only where a minus that
  touches digits is set apart from them.
-/

namespace ArithLine

/-! ## One character before some pieces -/

namespace Piece

/-- Whether the first of some pieces is a word. -/
def isWord : List Piece → Bool
  | .lexeme (.word _) :: _ => true
  | _ => false

theorem isWord_iff {ps : List Piece} : isWord ps ↔ ∃ w r, ps = lexeme (.word w) :: r := by
  rcases ps with _ | ⟨_ | (_ | w | _), r⟩ <;> simp [isWord]

/-- A glyph is a piece of its own, but for a minus before a numeral. -/
theorem attach_glyph {g : Glyph} {ps : List Piece}
    (h : ∀ w r, g = .op .sub → ps = lexeme (.word w) :: r → ¬ Word.isNumeral w) :
    attach g.char ps = lexeme (.glyph g) :: ps := by
  unfold attach
  rw [Glyph.ofChar?_char]
  split
  · next w r heq =>
    obtain rfl := Option.some.inj heq
    rw [if_neg (h w r rfl rfl)]
  · next heq _ => rw [Option.some.inj heq]
  · next heq => cases heq
  · next heq _ => cases heq

theorem attach_minus {w : List Char} {r : List Piece} (h : Word.isNumeral w) :
    attach '-' (lexeme (.word w) :: r) = lexeme (.signed w) :: r := by
  simp [attach, show Glyph.ofChar? '-' = some (.op .sub) by decide, h]

theorem attach_blank {c : Char} (h : isBlank c) (ps : List Piece) :
    attach c ps = blank c :: ps := by
  unfold attach
  rw [ofChar?_of_isBlank h]
  split <;> simp_all

/-- A word character makes a word longer, and starts one before anything else. -/
theorem attach_word {c : Char} (h : isWordChar c) (w : List Char) (r : List Piece) :
    attach c (lexeme (.word w) :: r) = lexeme (.word (c :: w)) :: r := by
  simp [attach, ofChar?_of_isWordChar h, isBlank_of_isWordChar h]

theorem attach_new {c : Char} (h : isWordChar c) {ps : List Piece} (hp : isWord ps = false) :
    attach c ps = lexeme (.word [c]) :: ps := by
  unfold attach
  rw [ofChar?_of_isWordChar h]
  split
  · next heq => cases heq
  · next heq _ => cases heq
  · cases hp
  · rw [if_neg (by simp [isBlank_of_isWordChar h])]

/-- What a character makes of the pieces that follow it. -/
inductive Attaches : Char → List Piece → List Piece → Prop
  | blank {c : Char} (h : isBlank c) (ps : List Piece) : Attaches c ps (blank c :: ps)
  | glyph (g : Glyph) (ps : List Piece)
    (h : ∀ w r, g = .op .sub → ps = lexeme (.word w) :: r → ¬ Word.isNumeral w) :
    Attaches g.char ps (lexeme (.glyph g) :: ps)
  | minus {w : List Char} (h : Word.isNumeral w) (r : List Piece) :
    Attaches '-' (lexeme (.word w) :: r) (lexeme (.signed w) :: r)
  | longer {c : Char} (h : isWordChar c) (w : List Char) (r : List Piece) :
    Attaches c (lexeme (.word w) :: r) (lexeme (.word (c :: w)) :: r)
  | new {c : Char} (h : isWordChar c) {ps : List Piece} (hp : isWord ps = false) :
    Attaches c ps (lexeme (.word [c]) :: ps)

theorem attaches (c : Char) (ps : List Piece) : Attaches c ps (attach c ps) := by
  by_cases hb : isBlank c
  · rw [attach_blank hb]
    exact .blank hb ps
  cases hg : Glyph.ofChar? c with
  | some g =>
    obtain rfl := Glyph.char_of_ofChar? hg
    by_cases hm : ∃ w r, g = .op .sub ∧ ps = lexeme (.word w) :: r ∧ Word.isNumeral w
    · obtain ⟨w, r, rfl, rfl, hw⟩ := hm
      rw [show Glyph.char (.op .sub) = '-' from rfl, attach_minus hw]
      exact .minus hw r
    · have hg : ∀ w r, g = .op .sub → ps = lexeme (.word w) :: r → ¬ Word.isNumeral w :=
        fun w r hg hp hn => hm ⟨w, r, hg, hp, hn⟩
      rw [attach_glyph hg]
      exact .glyph g ps hg
  | none =>
    have hc := isWordChar_of_ofChar? hg (by simpa using hb)
    by_cases hp : isWord ps
    · obtain ⟨w, r, rfl⟩ := isWord_iff.1 hp
      rw [attach_word hc]
      exact .longer hc w r
    · have hp : isWord ps = false := by simpa using hp
      rw [attach_new hc hp]
      exact .new hc hp

theorem Attaches.eq {c : Char} {ps qs : List Piece} (h : Attaches c ps qs) : attach c ps = qs := by
  cases h with
  | blank h => exact attach_blank h ps
  | glyph g _ h => exact attach_glyph h
  | minus h r => exact attach_minus h
  | longer h w r => exact attach_word h w r
  | new h hp => exact attach_new h hp

/-- Only a word character makes a word of what follows. -/
theorem Attaches.isWord_eq {c : Char} {ps qs : List Piece} (h : Attaches c ps qs) :
    isWord qs = isWordChar c := by
  cases h with
  | blank h => simp [isWord, isWordChar, h]
  | glyph g => simpa [isWord] using (not_isWordChar_char g)
  | minus h => rfl
  | longer h => rw [h]; rfl
  | new h => rw [h]; rfl

end Piece

/-! ## The pieces of a text -/

open Piece

theorem pieces_cons (c : Char) (cs : List Char) : pieces (c :: cs) = Piece.attach c (pieces cs) :=
  rfl

/-- The pieces of a text start with a word if the text starts with a word character. -/
theorem isWord_pieces (cs : List Char) : Piece.isWord (pieces cs) = cs.head?.any isWordChar := by
  cases cs with
  | nil => rfl
  | cons c r =>
    rw [pieces_cons, List.head?_cons, Option.any_some]
    exact (attaches c (pieces r)).isWord_eq

theorem pieces_word {w cs : List Char} (hw : w ≠ []) (hall : w.all isWordChar)
    (h : cs.head?.any isWordChar = false) : pieces (w ++ cs) = .lexeme (.word w) :: pieces cs := by
  induction w with
  | nil => exact absurd rfl hw
  | cons c w ih =>
    rw [List.all_cons, Bool.and_eq_true] at hall
    rw [List.cons_append, pieces_cons]
    cases w with
    | nil => exact attach_new hall.1 (by rw [List.nil_append, isWord_pieces, h])
    | cons d w => rw [ih (List.cons_ne_nil d w) hall.2, attach_word hall.1]

/-! ## Tokens that cover a text -/

/-- Tokens that differ from others only where a minus is set apart from the digits that it
touches. -/
inductive Splits : List Token → List Token → Prop
  | nil : Splits [] []
  | same (t : Token) {ts us : List Token} (h : Splits ts us) : Splits (t :: ts) (t :: us)
  | minus (n : ℕ) (ds : List Char) {ts us : List Token} (h : Splits ts us) :
    Splits (⟨.glyph (.op .sub), n⟩ :: ⟨.word ds, n + 1⟩ :: ts) (⟨.signed ds, n⟩ :: us)

/-- A glyph of a line is never set apart, so all tokens that cover the line have it. -/
theorem Splits.mem_glyph {ts us : List Token} {g : Glyph} {n : ℕ} (h : Splits ts us)
    (hg : ⟨.glyph g, n⟩ ∈ us) : ⟨.glyph g, n⟩ ∈ ts := by
  induction h with
  | nil => cases hg
  | same t _ ih =>
    rcases List.mem_cons.1 hg with rfl | hg
    · exact List.mem_cons_self
    · exact List.mem_cons_of_mem _ (ih hg)
  | minus m ds _ ih =>
    rcases List.mem_cons.1 hg with hg | hg
    · cases hg
    · exact List.mem_cons_of_mem _ (List.mem_cons_of_mem _ (ih hg))

/-- **Tokens that cover a line are its tokens**, but that a minus may be set apart. -/
theorem Covers.splits {n : ℕ} {cs : List Char} (h : Covers n ts cs) :
    Splits ts (Token.place n (pieces cs)) := by
  induction h with
  | done n => exact .nil
  | blank hb _ ih => rw [pieces_cons, attach_blank hb]; exact ih
  | @token n l ts cs hl hr ih =>
    match l, hl with
    | .word w, ⟨hw, hall, hend⟩ =>
      rw [Lexeme.chars, pieces_word hw hall hend]; exact .same _ ih
    | .signed ds, ⟨hds, hend⟩ =>
      obtain ⟨hw, hall⟩ := isWordChar_of_isNumeral hds
      rw [Lexeme.chars, List.cons_append, pieces_cons, pieces_word hw hall hend, attach_minus hds]
      exact .same _ ih
    | .glyph g, _ =>
      rw [Lexeme.chars, List.singleton_append, pieces_cons]
      by_cases hm : ∃ w r, g = .op .sub ∧ pieces cs = .lexeme (.word w) :: r ∧ Word.isNumeral w
      · -- here the line has one token where the cover has two
        obtain ⟨w, r, rfl, hcs, hw⟩ := hm
        rw [hcs] at ih ⊢
        rw [show Glyph.char (.op .sub) = '-' from rfl, attach_minus hw]
        generalize hus : Token.place (n + byteLength (Lexeme.glyph (.op .sub)).chars)
          (.lexeme (.word w) :: r) = us at ih
        cases ih with
        | nil => cases hus
        | @same t ts us h =>
          cases hus
          exact .minus n w (by simpa [Lexeme.chars, Nat.add_assoc] using h)
        | minus n ds h => cases hus
      · rw [attach_glyph (fun w r hg hp hn => hm ⟨w, r, hg, hp, hn⟩)]
        exact .same _ ih

theorem covers_place (n : ℕ) (cs : List Char) : Covers n (Token.place n (pieces cs)) cs := by
  induction cs generalizing n with
  | nil => exact .done n
  | cons c cs ih =>
    have h := ih (n + c.utf8Size)
    have hword := isWord_pieces cs
    have hc := attaches c (pieces cs)
    rw [pieces_cons]
    generalize pieces cs = ps at h hword hc
    generalize attach c ps = qs at hc
    cases hc with
    | blank hb => exact .blank hb h
    | glyph g => exact .token (l := .glyph g) trivial (by simpa [Lexeme.chars] using h)
    | @minus w hw r =>
      obtain ⟨cs, rfl, ⟨-, -, hend⟩, hr⟩ := h.cons_inv
      exact .token (l := .signed w) ⟨hw, hend⟩ (by simpa [Lexeme.chars, Nat.add_assoc] using hr)
    | longer hc w r =>
      obtain ⟨cs, rfl, ⟨-, hw, hend⟩, hr⟩ := h.cons_inv
      exact .token (l := .word (c :: w)) ⟨List.cons_ne_nil c w, by simp [hc, hw], hend⟩
        (by simpa [Lexeme.chars, Nat.add_assoc] using hr)
    | new hc hp =>
      exact .token (l := .word [c]) ⟨List.cons_ne_nil c [], by simp [hc], hword ▸ hp⟩
        (by simpa [Lexeme.chars] using h)

end ArithLine

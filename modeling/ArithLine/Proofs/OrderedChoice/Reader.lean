import ArithLine.Proofs.Grammar.Run
import ArithLine.Proofs.OrderedChoice.Token

/-!
# The reader from a place on

The reader of tokens cuts a whole line and then takes one token after another. Here it goes on
from a place in the line, so that it can be followed next to a run of the grammar.

* `Unfinished.readFrom`: what comes of the rest of a line.
* `readFrom_skip`, `readFrom_word`, `readFrom_signed`, `readFrom_glyph`, `readFrom_nil`: one law
  for each thing that may stand at a place.
* `Cursor.Starts`: what an operand may start with.
-/

namespace ArithLine

open OrderedChoice

/-- What comes of the rest of a line. -/
def Unfinished.readFrom (u : Unfinished) (c : Cursor) : Except Rejection Tree :=
  u.read (c.pos + byteLength c.rest) (Token.place c.pos (pieces c.rest))

/-- What comes of the rest of a line once a token has been taken in, if it has. -/
def Unfinished.goOn (u : Unfinished) (t : Token) (d : Cursor) : Except Rejection Tree :=
  match u.step t with
  | some v => v.readFrom d
  | none => .error ⟨t.start, u.expected⟩

/-- Whether the next token is to be an operand, so that a minus may belong to a numeral. -/
def Unfinished.wantsOperand : Unfinished → Bool
  | .opened .. | .operand .. => true
  | _ => false

namespace Unfinished

variable {u v : Unfinished} {c d : Cursor} {r : List Char} {g : Glyph} {l : Lexeme} {t : Token}

theorem goOn_of_step (h : u.step t = some v) : u.goOn t d = v.readFrom d := by
  rw [goOn, h]

theorem goOn_of_none (h : u.step t = none) : u.goOn t d = .error ⟨t.start, u.expected⟩ := by
  rw [goOn, h]

theorem readFrom_nil (h : c.rest = []) :
    u.readFrom c = match u.finish? c.pos with
      | some t => .ok t
      | none => .error ⟨c.pos, u.expected⟩ := by
  rw [readFrom, h]
  rfl

/-- Blanks are skipped. -/
@[simp] theorem readFrom_skip (u : Unfinished) (c : Cursor) : u.readFrom c.skip = u.readFrom c := by
  obtain ⟨n, cs⟩ := c
  induction cs generalizing n with
  | nil => rfl
  | cons x cs ih =>
    cases hx : isBlank x with
    | false => rw [Cursor.skip_of_isSkipped (c := ⟨n, x :: cs⟩) hx]
    | true =>
      have hskip : Cursor.skip ⟨n, x :: cs⟩ = Cursor.skip ⟨n + x.utf8Size, cs⟩ := by
        simp [Cursor.skip, hx, Nat.add_assoc]
      rw [hskip, ih, readFrom, readFrom, pieces_cons, Piece.attach_blank hx, byteLength_cons,
        ← Nat.add_assoc]
      rfl

/-- The first lexeme of the rest of a line is taken in. -/
theorem readFrom_lexeme (hc : c.rest = l.chars ++ d.rest)
    (hp : pieces c.rest = .lexeme l :: pieces d.rest)
    (hd : d.pos = c.pos + byteLength l.chars) : u.readFrom c = u.goOn ⟨l, c.pos⟩ d := by
  rw [readFrom, hp, Token.place, read, hc, byteLength_append, ← Nat.add_assoc, ← hd]
  rfl

theorem pieces_word_eq (h : c.word ≠ []) :
    pieces c.rest = .lexeme (.word c.word) :: pieces c.afterWord.rest := by
  have hall : c.word.all isWordChar := List.all_takeWhile
  have := pieces_word h hall c.head?_afterWord
  rwa [c.word_append] at this

/-- A word is taken in as a whole. -/
theorem readFrom_word (h : c.word ≠ []) : u.readFrom c = u.goOn ⟨.word c.word, c.pos⟩ c.afterWord :=
  readFrom_lexeme c.word_append.symm (pieces_word_eq h) rfl

theorem pieces_signed (hc : c.rest = '-' :: r)
    (hr : Word.isNumeral (Cursor.word ⟨c.pos + 1, r⟩)) :
    pieces c.rest = .lexeme (.signed (Cursor.word ⟨c.pos + 1, r⟩)) ::
      pieces (Cursor.afterWord ⟨c.pos + 1, r⟩).rest := by
  have hword := pieces_word_eq (isWordChar_of_isNumeral hr).1
  rw [hc, pieces_cons, show pieces r = _ from hword, Piece.attach_minus hr]

/-- A minus is taken in with the digits that it touches. -/
theorem readFrom_signed (hc : c.rest = '-' :: r)
    (hr : Word.isNumeral (Cursor.word ⟨c.pos + 1, r⟩)) :
    u.readFrom c = u.goOn ⟨.signed (Cursor.word ⟨c.pos + 1, r⟩), c.pos⟩
      (Cursor.afterWord ⟨c.pos + 1, r⟩) := by
  refine readFrom_lexeme ?_ (pieces_signed hc hr) ?_
  · rw [hc, Lexeme.chars, List.cons_append, Cursor.word_append]
  · rw [Lexeme.chars, byteLength_cons, utf8Size_minus, ← Nat.add_assoc]
    rfl

theorem exists_operand_of_step {n : ℕ} {o : Op} (h : u.step ⟨.glyph (.op o), n⟩ = some v) :
    ∃ s l, v = operand s l := by
  have hended : ∀ {s l ts}, stepEnded s l ts ⟨.glyph (.op o), n⟩ = some v →
      ∃ s l, v = operand s l := by
    intro s l ts h
    obtain ⟨l', -, rfl⟩ := Option.map_eq_some_iff.1 h
    exact ⟨s, l', rfl⟩
  cases u with
  | ended s l ts => exact hended h
  | reserved s l o w => exact hended (by simpa [step] using h)
  | _ => simp [step, stepOperand] at h

/-- Where no operand is wanted, a minus is an operator and its digits are an operand. -/
theorem goOn_signed (hu : u.wantsOperand = false) (n : ℕ) (ds : List Char) :
    u.goOn ⟨.signed ds, n⟩ d =
      match u.step ⟨.glyph (.op .sub), n⟩ with
      | some v => v.goOn ⟨.word ds, n + 1⟩ d
      | none => .error ⟨n, u.expected⟩ := by
  cases hs : u.step ⟨.glyph (.op .sub), n⟩ with
  | some v =>
    obtain ⟨s, l, rfl⟩ := exists_operand_of_step hs
    exact goOn_of_step (step_signed hs)
  | none =>
    refine goOn_of_none ?_
    cases u with
    | opened | operand => cases hu
    | ended s l ts =>
      simp only [step] at hs ⊢
      rw [stepEnded_signed rfl, hs]
      rfl
    | reserved s l o w =>
      simp only [step, reduceCtorEq, if_false, Lexeme.glyph.injEq] at hs ⊢
      rw [stepEnded_signed rfl, hs]
      rfl
    | bindings | name => rfl

/-- A glyph is taken in by itself, but for the minus of a numeral that may stand there. -/
theorem readFrom_glyph (hc : c.rest = g.char :: r)
    (hg : u.wantsOperand = true → g = .op .sub →
      Word.isNumeral (Cursor.word ⟨c.pos + 1, r⟩) = false) :
    u.readFrom c = u.goOn ⟨.glyph g, c.pos⟩ ⟨c.pos + 1, r⟩ := by
  by_cases hm : g = .op .sub ∧ Word.isNumeral (Cursor.word ⟨c.pos + 1, r⟩)
  · obtain ⟨rfl, hr⟩ := hm
    have hu : u.wantsOperand = false := by
      by_contra hu
      rw [hg (by simpa using hu) rfl] at hr
      cases hr
    rw [readFrom_signed hc hr, goOn_signed hu, goOn]
    cases u.step ⟨.glyph (.op .sub), c.pos⟩ with
    | none => rfl
    | some v => exact (readFrom_word (isWordChar_of_isNumeral hr).1).symm
  · refine readFrom_lexeme hc ?_ (by simp [Lexeme.chars])
    rw [hc, pieces_cons]
    refine Piece.attach_glyph fun w qs hg hw hn => hm ⟨hg, ?_⟩
    have hword : Cursor.word ⟨c.pos + 1, r⟩ ≠ [] := fun h => by
      have hr := isWord_pieces r
      rw [Cursor.word_eq_nil_iff.1 h, hw] at hr
      cases hr
    have hpieces : pieces r = _ := pieces_word_eq hword
    rw [hw] at hpieces
    cases hpieces
    exact hn

/-! ## Where a token is refused -/

/-- The rest of a line is refused at its start if what stands there is. -/
theorem readFrom_of_none (hc : c.IsSkipped) (hu : u.wantsOperand = false)
    (hnil : c.rest = [] → u.finish? c.pos = none)
    (hglyph : ∀ g r, c.rest = g.char :: r → u.step ⟨.glyph g, c.pos⟩ = none)
    (hword : u.step ⟨.word c.word, c.pos⟩ = none) : u.readFrom c = .error ⟨c.pos, u.expected⟩ := by
  cases hrest : c.rest with
  | nil => rw [readFrom_nil hrest, hnil hrest]
  | cons x r =>
    cases hg : Glyph.ofChar? x with
    | some g =>
      obtain rfl := Glyph.char_of_ofChar? hg
      rw [readFrom_glyph hrest (by simp [hu])]
      exact goOn_of_none (hglyph g r hrest)
    | none =>
      have hx : isBlank x = false := by simpa [Cursor.IsSkipped, hrest] using hc
      have hw : c.word ≠ [] := by
        rw [Ne, Cursor.word_eq_nil_iff, hrest]
        simp [isWordChar_of_ofChar? hg hx]
      rw [readFrom_word hw]
      exact goOn_of_none hword

theorem operator?_eq_none {l : Level} {o : Op} (ho : o ∉ l.operators) (ts : List Tree) (t : Token) :
    l.operator? ts o t = none := by
  obtain ⟨sum, product⟩ := l
  cases o <;> cases sum <;> cases product <;>
    simp_all [Level.operator?, Level.operators, OpenChain.extend?, Op.isTight, eq_comm]

/-- After an operand nothing may stand but the operators of its level and the end of the
expression. -/
theorem stepEnded_eq_none {s : List Frame} {l : Level} {ts : List Tree}
    (hops : ∀ o ∈ l.operators, g ≠ .op o) (hclose : s ≠ [] → g ≠ .closing) (n : ℕ) :
    stepEnded s l ts ⟨.glyph g, n⟩ = none := by
  cases g with
  | opening => rfl
  | closing =>
    cases s with
    | nil => rfl
    | cons f s => exact absurd rfl (hclose (List.cons_ne_nil f s))
  | op o =>
    have ho : o ∉ l.operators := fun h => hops o h rfl
    exact Option.map_eq_none_iff.2 (operator?_eq_none ho _ _)

end Unfinished

/-! ## Past a glyph -/

/-- A glyph stands at `c`, and `d` is past it and the blanks after it. -/
structure OrderedChoice.Past (g : Glyph) (c d : Cursor) : Prop where
  lt : c.pos < d.pos
  shorter : d.rest.length < c.rest.length
  isSkipped : d.IsSkipped
  fails {f : Pattern} {k : Attempts} (h : Fails f d k) : Fails (.seq (.glyph g) f) c k
  passes {f : Pattern} {b : Cursor} {ps : List Pair} {k : Attempts} (h : Passes f d b ps k) :
    Passes (.seq (.glyph g) f) c b (.ofGlyph g c.pos :: ps) k
  reads {u v : Unfinished} (hu : u.wantsOperand = true → g ≠ .op .sub)
    (h : u.step ⟨.glyph g, c.pos⟩ = some v) : u.readFrom c = v.readFrom d

theorem OrderedChoice.exists_past {g : Glyph} {c : Cursor} (h : c.rest.head? = some g.char) :
    ∃ d, Past g c d := by
  obtain ⟨r, hr⟩ := List.head?_eq_some_iff.1 h
  have hglyph := passes_glyph hr
  refine ⟨Cursor.skip ⟨c.pos + 1, r⟩, ?_, ?_, Cursor.isSkipped_skip _, hglyph.seq_fails_of_nil,
    hglyph.seq_of_nil, fun hu hstep => ?_⟩
  · exact (Nat.lt_succ_self _).trans_le (Cursor.pos_le_skip ⟨c.pos + 1, r⟩)
  · rw [hr]
    exact Nat.lt_succ_of_le (Cursor.length_skip_le ⟨c.pos + 1, r⟩)
  · rw [Unfinished.readFrom_glyph hr fun hu' hg => absurd hg (hu hu'),
      Unfinished.goOn_of_step hstep, Unfinished.readFrom_skip]

/-! ## Where an operand may start -/

/-- What starts no operand: the end of the line, a closing parenthesis, an operator, a minus that
touches no numeral. -/
def OrderedChoice.Cursor.StartsNothing (c : Cursor) : Prop :=
  c.rest = [] ∨ ∃ (g : Glyph) (r : List Char), c.rest = g.char :: r ∧ g ≠ .opening ∧
    (g = .op .sub → Word.isNumeral (Cursor.word ⟨c.pos + 1, r⟩) = false)

/-- What may stand at a place where there is no blank. -/
inductive OrderedChoice.Cursor.Starts (c : Cursor) : Prop
  | nothing (h : c.StartsNothing)
  | word (h : c.word ≠ [])
  | signed (r : List Char) (hc : c.rest = '-' :: r)
    (hr : Word.isNumeral (Cursor.word ⟨c.pos + 1, r⟩))
  | opening (r : List Char) (hc : c.rest = '(' :: r)

theorem OrderedChoice.Cursor.starts {c : Cursor} (hc : c.IsSkipped) : c.Starts := by
  cases hrest : c.rest with
  | nil => exact .nothing (.inl hrest)
  | cons x r =>
    cases hg : Glyph.ofChar? x with
    | none =>
      have hx : isBlank x = false := by simpa [Cursor.IsSkipped, hrest] using hc
      refine .word ?_
      rw [Ne, Cursor.word_eq_nil_iff, hrest]
      simp [isWordChar_of_ofChar? hg hx]
    | some g =>
      obtain rfl := Glyph.char_of_ofChar? hg
      by_cases hopen : g = .opening
      · subst hopen
        exact .opening r hrest
      · by_cases hs : g = .op .sub ∧ Word.isNumeral (Cursor.word ⟨c.pos + 1, r⟩)
        · obtain ⟨rfl, hr⟩ := hs
          exact .signed r hrest hr
        · refine .nothing (.inr ⟨g, r, hrest, hopen, fun hm => ?_⟩)
          simpa [hm] using hs

/-- Where no operand starts, none is taken in. -/
theorem Unfinished.readFrom_of_startsNothing {c : Cursor} {u : Unfinished}
    (hu : u.wantsOperand) (h : c.StartsNothing) : u.readFrom c = .error ⟨c.pos, u.expected⟩ := by
  rcases h with hnil | ⟨g, r, hrest, hopen, hsub⟩
  · rw [readFrom_nil hnil]
    cases u with
    | opened | operand => rfl
    | _ => cases hu
  · rw [readFrom_glyph hrest fun _ => hsub]
    refine goOn_of_none ?_
    cases u with
    | opened | operand =>
      cases g with
      | opening => exact absurd rfl hopen
      | closing | op => rfl
    | _ => cases hu

end ArithLine

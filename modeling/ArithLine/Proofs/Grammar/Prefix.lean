import ArithLine.Proofs.Grammar.Cover
import ArithLine.Proofs.Grammar.Run

/-!
# The start of a line

A line is cut into pieces from its end, but what stands before a token does not depend on
what follows it.

* `pieces_append`: two texts are cut apart where no word runs from one into the other.
* `pieces_take`: the first pieces of a line are the pieces of their own text.
* `StopsAt`: where the reader stops in a line that is refused, and what it has read by then.
* `StopsAt.ne_ok`: it stops there in every line that goes on with what is refused
  (`refusedRun`) and a blank.
-/

namespace ArithLine

open Piece

/-! ## Pieces -/

namespace Piece

variable {c : Char} {ps qs rs : List Piece}

theorem isWord_append (ps : List Piece) (h : isWord qs = false) : isWord (ps ++ qs) = isWord ps := by
  cases ps with
  | nil => exact h
  | cons p ps => rcases p with _ | (_ | _ | _) <;> rfl

/-- What a character makes of some pieces depends on the first of them alone. -/
theorem Attaches.append (h : Attaches c ps rs) (hq : isWord qs = false) :
    Attaches c (ps ++ qs) (rs ++ qs) := by
  cases h with
  | blank h => exact .blank h _
  | glyph g _ h =>
    refine .glyph g _ fun w r hg hp => ?_
    cases ps with
    | nil =>
      rw [List.nil_append] at hp
      rw [hp] at hq
      cases hq
    | cons p ps =>
      obtain ⟨rfl, -⟩ := List.cons.inj hp
      exact h w ps hg rfl
  | minus h r => exact .minus h _
  | longer h w r => exact .longer h w _
  | new h hp => exact .new h (by rw [isWord_append ps hq, hp])

end Piece

/-- Two texts are cut apart where no word goes on from the one into the other. -/
theorem pieces_append (cs : List Char) {ds : List Char} (h : ds.head?.any isWordChar = false) :
    pieces (cs ++ ds) = pieces cs ++ pieces ds := by
  induction cs with
  | nil => rfl
  | cons c cs ih =>
    have hd : isWord (pieces ds) = false := by rw [isWord_pieces, h]
    rw [List.cons_append, pieces_cons, ih, pieces_cons]
    exact ((attaches c (pieces cs)).append hd).eq

/-- **The first pieces of a line are the pieces of their own text.** -/
theorem pieces_take {cs : List Char} {ps qs : List Piece} (h : pieces cs = ps ++ qs) :
    pieces (ps.flatMap chars) = ps := by
  induction cs generalizing ps with
  | nil =>
    obtain ⟨rfl, -⟩ := List.append_eq_nil_iff.1 h.symm
    rfl
  | cons c cs ih =>
    cases ps with
    | nil => rfl
    | cons p ps =>
      rw [pieces_cons] at h
      have hc := attaches c (pieces cs)
      rw [h] at hc
      -- the character belongs to the first piece, whatever it is
      generalize hrs : pieces cs = rs at hc
      cases hc with
      | blank hb =>
        rw [List.flatMap_cons, chars, List.singleton_append, pieces_cons, ih hrs]
        exact attach_blank hb ps
      | glyph g _ hg =>
        have hps := ih hrs
        rw [List.flatMap_cons, chars, Lexeme.chars, List.singleton_append, pieces_cons, hps]
        refine attach_glyph fun w r hm hp => ?_
        subst hp
        exact hg w (r ++ qs) hm rfl
      | @minus w hw r =>
        have hps : pieces ((.lexeme (.word w) :: ps).flatMap chars) = .lexeme (.word w) :: ps := ih hrs
        simp only [List.flatMap_cons, chars, Lexeme.chars] at hps ⊢
        rw [List.cons_append, pieces_cons, hps]
        exact attach_minus hw
      | longer hc w r =>
        have hps : pieces ((.lexeme (.word w) :: ps).flatMap chars) = .lexeme (.word w) :: ps := ih hrs
        simp only [List.flatMap_cons, chars, Lexeme.chars] at hps ⊢
        rw [List.cons_append, pieces_cons, hps]
        exact attach_word hc w ps
      | new hc hp =>
        have hps := ih hrs
        rw [List.flatMap_cons, chars, Lexeme.chars, List.singleton_append, pieces_cons, hps]
        refine attach_new hc ?_
        cases ps with
        | nil => rfl
        | cons p ps => rcases p with _ | (_ | _ | _) <;> exact hp

/-- The last pieces of a line are the pieces of their own text. -/
theorem pieces_drop {cs : List Char} {ps qs : List Piece} (h : pieces cs = ps ++ qs) :
    pieces (qs.flatMap chars) = qs := by
  induction cs generalizing ps with
  | nil =>
    obtain ⟨-, rfl⟩ := List.append_eq_nil_iff.1 h.symm
    rfl
  | cons c cs ih =>
    cases ps with
    | nil =>
      rw [List.nil_append] at h
      rw [← h, chars_pieces]
    | cons p ps =>
      rw [pieces_cons] at h
      have hc := attaches c (pieces cs)
      rw [h] at hc
      generalize hrs : pieces cs = rs at hc
      cases hc with
      | blank hb => exact ih hrs
      | glyph g _ hg => exact ih hrs
      | @minus w hw r => exact ih (show pieces cs = .lexeme (.word w) :: ps ++ qs from hrs)
      | longer hc w r => exact ih (show pieces cs = .lexeme (.word w) :: ps ++ qs from hrs)
      | new hc hp => exact ih hrs

/-- A place in a line is known by its byte. -/
theorem append_inj_of_byteLength {as bs cs ds : List Char} (h : as ++ bs = cs ++ ds)
    (hlen : byteLength as = byteLength cs) : as = cs ∧ bs = ds := by
  induction as generalizing cs with
  | nil =>
    cases cs with
    | nil => exact ⟨rfl, h⟩
    | cons c cs =>
      have := c.utf8Size_pos
      rw [byteLength_nil, byteLength_cons] at hlen
      omega
  | cons a as ih =>
    cases cs with
    | nil =>
      have := a.utf8Size_pos
      rw [byteLength_nil, byteLength_cons] at hlen
      omega
    | cons c cs =>
      obtain ⟨rfl, hrest⟩ := List.cons.inj h
      rw [byteLength_cons, byteLength_cons] at hlen
      obtain ⟨rfl, rfl⟩ := ih hrest (by omega)
      exact ⟨rfl, rfl⟩

theorem Token.place_append (n : ℕ) (ps qs : List Piece) :
    place n (ps ++ qs) = place n ps ++ place (n + byteLength (ps.flatMap chars)) qs := by
  induction ps generalizing n with
  | nil => rfl
  | cons p ps ih =>
    cases p with
    | blank c => simp [place, ih, chars, Nat.add_assoc]
    | lexeme l => simp [place, ih, chars, Nat.add_assoc]

/-! ## Where the reader stops -/

/-- **Where the reader stops in a line that is refused**: after some text, where it may not
end or may not take in the next lexeme. -/
structure StopsAt (line : List Char) (r : Rejection) (before after : List Char) (v : Unfinished) :
    Prop where
  line_eq : line = before ++ after
  run : Unfinished.start.run (Token.place 0 (pieces before)) = some v
  offset : r.offset = byteLength before
  expected : r.expected = v.expected
  stuck : (after = [] ∧ v.finish? (byteLength line) = none) ∨
    ∃ l qs, pieces line = pieces before ++ .lexeme l :: qs ∧ v.step ⟨l, byteLength before⟩ = none

/-- The pieces before the place where some pieces are refused. -/
theorem Unfinished.exists_stop {length n : ℕ} {u : Unfinished} {ps : List Piece} {r : Rejection}
    (h : u.read length (Token.place n ps) = .error r)
    (hlen : n + byteLength (ps.flatMap chars) = length) :
    ∃ before after v, ps = before ++ after ∧ u.run (Token.place n before) = some v ∧
      r = ⟨n + byteLength (before.flatMap chars), v.expected⟩ ∧
      ((after = [] ∧ v.finish? length = none) ∨
        ∃ l qs, after = .lexeme l :: qs ∧ v.step ⟨l, r.offset⟩ = none) := by
  induction ps generalizing n u with
  | nil =>
    simp only [Token.place, Unfinished.read] at h
    split at h
    · cases h
    · next hfinish =>
      refine ⟨[], [], u, rfl, rfl, ?_, .inl ⟨rfl, hfinish⟩⟩
      rw [← Except.error.inj h, ← hlen]
  | cons p ps ih =>
    cases p with
    | blank c =>
      obtain ⟨before, after, v, rfl, hrun, hr, hstuck⟩ :=
        ih h (by simpa [chars, Nat.add_assoc] using hlen)
      exact ⟨.blank c :: before, after, v, rfl, hrun, by simp [hr, chars, Nat.add_assoc], hstuck⟩
    | lexeme l =>
      simp only [Token.place, Unfinished.read] at h
      split at h
      · next w hw =>
        obtain ⟨before, after, v, rfl, hrun, hr, hstuck⟩ :=
          ih h (by simpa [chars, Nat.add_assoc] using hlen)
        refine ⟨.lexeme l :: before, after, v, rfl, ?_, by simp [hr, chars, Nat.add_assoc], hstuck⟩
        rw [Token.place, run_cons, hw]
        exact hrun
      · next hl =>
        obtain rfl := Except.error.inj h
        exact ⟨[], .lexeme l :: ps, u, rfl, rfl, rfl, .inr ⟨l, ps, rfl, hl⟩⟩

theorem exists_stopsAt {line : String} {r : Rejection} (h : Tree.ofLine line = .error r) :
    ∃ before after v, StopsAt line.toList r before after v := by
  rw [Tree.ofLine, utf8ByteSize_eq] at h
  obtain ⟨ps, qs, v, hps, hrun, hr, hstuck⟩ := Unfinished.exists_stop h (by rw [chars_pieces, Nat.zero_add])
  have htake := pieces_take hps
  have hline := chars_pieces line.toList
  rw [hps, List.flatMap_append] at hline
  refine ⟨ps.flatMap chars, qs.flatMap chars, v, hline.symm, by rwa [htake], by simp [hr],
    by simp [hr], ?_⟩
  rcases hstuck with ⟨rfl, hfinish⟩ | ⟨l, qs, rfl, hl⟩
  · exact .inl ⟨rfl, hfinish⟩
  · refine .inr ⟨l, qs, by rw [htake, hps], ?_⟩
    simpa [hr] using hl

/-! ## What is refused -/

/-- What is refused at the start of a text: a glyph other than a minus, or a run of word
characters, with the minus before it if there is one. -/
def refusedRun : List Char → List Char
  | [] => []
  | c :: cs => c :: if c ∈ ['(', ')', '+', '*', '/'] then [] else cs.takeWhile isWordChar

theorem takeWhile_word {w cs : List Char} (hw : w.all isWordChar)
    (h : cs.head?.any isWordChar = false) : (w ++ cs).takeWhile isWordChar = w := by
  have hcs : cs.takeWhile isWordChar = [] := by
    cases cs with
    | nil => rfl
    | cons c cs => exact List.takeWhile_cons_of_neg (by simpa using h)
  rw [List.takeWhile_append_of_pos (List.all_eq_true.1 hw), hcs, List.append_nil]

/-- A lexeme other than a minus is refused as a whole. -/
theorem refusedRun_eq {l : Lexeme} {cs : List Char} (h : l.Precedes cs) (hl : l ≠ .glyph (.op .sub)) :
    refusedRun (l.chars ++ cs) = l.chars := by
  match l, h with
  | .glyph g, _ =>
    have hg : g.char ∈ ['(', ')', '+', '*', '/'] := by
      rcases g with _ | _ | (_ | _ | _ | _)
      case op.sub => exact absurd rfl hl
      all_goals decide
    rw [Lexeme.chars, List.singleton_append, refusedRun, if_pos hg]
  | .word (c :: w), ⟨_, hw, hcs⟩ =>
    rw [List.all_cons, Bool.and_eq_true] at hw
    have hglyph : ∀ d ∈ ['(', ')', '+', '*', '/'], isWordChar d = false := by
      simp only [List.forall_mem_cons]
      exact ⟨rfl, rfl, rfl, rfl, rfl, List.forall_mem_nil _⟩
    have hc : c ∉ ['(', ')', '+', '*', '/'] := fun hmem => by simp [hglyph c hmem] at hw
    rw [Lexeme.chars, List.cons_append, refusedRun, if_neg hc, takeWhile_word hw.2 hcs]
  | .signed ds, ⟨hds, hcs⟩ =>
    obtain ⟨-, hall⟩ := isWordChar_of_isNumeral hds
    rw [Lexeme.chars, List.cons_append, refusedRun, if_neg (by decide), takeWhile_word hall hcs]

/-- A minus that touches no numeral touches none in front of a blank. -/
theorem exists_pieces_minus {cs : List Char} {qs : List Piece}
    (h : pieces ('-' :: cs) = .lexeme (.glyph (.op .sub)) :: qs) (rest : List Char) :
    ∃ more, pieces (refusedRun ('-' :: cs) ++ ' ' :: rest) = .lexeme (.glyph (.op .sub)) :: more := by
  have hrun : refusedRun ('-' :: cs) = '-' :: cs.takeWhile isWordChar := rfl
  generalize hw : cs.takeWhile isWordChar = w at hrun
  have hall : w.all isWordChar := by
    rw [← hw]
    exact List.all_takeWhile
  have hdrop : (cs.dropWhile isWordChar).head?.any isWordChar = false := by
    cases hd : (cs.dropWhile isWordChar).head? with
    | none => rfl
    | some c =>
      have hc := List.head?_dropWhile_not isWordChar cs
      rw [hd] at hc
      simpa using hc
  have hnum : ¬ Word.isNumeral w := by
    intro hnum
    obtain ⟨hne, -⟩ := isWordChar_of_isNumeral hnum
    have hcs := pieces_word hne hall hdrop
    rw [← hw, List.takeWhile_append_dropWhile, hw] at hcs
    rw [pieces_cons, hcs, attach_minus hnum] at h
    cases h
  refine ⟨pieces (w ++ ' ' :: rest), ?_⟩
  rw [hrun, List.cons_append, pieces_cons]
  refine attach_glyph (g := .op .sub) fun u r _ hu => ?_
  by_cases hne : w = []
  · rw [hne, List.nil_append, pieces_cons, attach_blank rfl] at hu
    cases hu
  · rw [pieces_word hne hall rfl] at hu
    obtain ⟨rfl, -⟩ : w = u ∧ _ := by simpa using hu
    exact hnum

namespace StopsAt

variable {line before after : List Char} {r : Rejection} {v : Unfinished}

/-- The lexeme where the reader stops before the end of a line. -/
theorem exists_lexeme (h : StopsAt line r before after v) (hne : after ≠ []) : ∃ l cs qs,
    after = l.chars ++ cs ∧ l.Precedes cs ∧ pieces after = .lexeme l :: qs ∧
      pieces line = pieces before ++ .lexeme l :: qs ∧ v.step ⟨l, byteLength before⟩ = none := by
  obtain ⟨rfl, -⟩ | ⟨l, qs, hpieces, hstep⟩ := h.stuck
  · exact absurd rfl hne
  have hafter : pieces after = .lexeme l :: qs := by
    have hdrop := pieces_drop hpieces
    have hchars := chars_pieces line
    rw [hpieces, List.flatMap_append, chars_pieces, h.line_eq, List.append_cancel_left_eq] at hchars
    rwa [hchars] at hdrop
  have hcov := covers_place 0 after
  rw [hafter, Token.place] at hcov
  obtain ⟨cs, hcs, hprec, -⟩ := hcov.cons_inv
  exact ⟨l, cs, qs, hcs, hprec, hafter, hpieces, hstep⟩

/-- No blank stands where the reader stops. -/
theorem not_isBlank (h : StopsAt line r before after v) : ∀ c ∈ after.head?, isBlank c = false := by
  intro c hc
  have hne : after ≠ [] := by
    rintro rfl
    cases hc
  obtain ⟨l, cs, -, rfl, hprec, -⟩ := h.exists_lexeme hne
  obtain ⟨d, ds, hl, hd⟩ := hprec.chars_eq
  rw [hl, List.cons_append, List.head?_cons] at hc
  rwa [← Option.some.inj hc]

/-- What is refused is cut off in the same way in front of a blank. -/
theorem exists_pieces (h : StopsAt line r before after v) (hne : after ≠ []) (rest : List Char) :
    ∃ l more, pieces (before ++ (refusedRun after ++ ' ' :: rest)) =
      pieces before ++ .lexeme l :: more ∧ v.step ⟨l, byteLength before⟩ = none := by
  obtain ⟨l, cs, qs, hafter, hprec, hpieces, hline, hstep⟩ := h.exists_lexeme hne
  by_cases hl : l = .glyph (.op .sub)
  · -- a minus with no numeral after it takes part in no other lexeme
    subst hl
    obtain rfl : after = '-' :: cs := hafter
    obtain ⟨more, hmore⟩ := exists_pieces_minus hpieces rest
    refine ⟨_, more, ?_, hstep⟩
    rw [pieces_append before (by rfl), hmore]
  · have htake : pieces (before ++ l.chars) = pieces before ++ [.lexeme l] := by
      have hcut : pieces line = (pieces before ++ [.lexeme l]) ++ qs := by simp [hline]
      have htake := pieces_take hcut
      simpa [chars_pieces, chars] using htake
    refine ⟨l, pieces (' ' :: rest), ?_, hstep⟩
    have hblank : (' ' :: rest).head?.any isWordChar = false := rfl
    rw [hafter, refusedRun_eq hprec hl, ← List.append_assoc, pieces_append _ hblank, htake,
      List.append_assoc, List.singleton_append]

/-- **No line goes on with what is refused**, where a blank ends it. -/
theorem ne_ok (h : StopsAt line r before after v) (hne : after ≠ []) (rest : List Char) (t : Tree) :
    Tree.ofLine (.ofList (before ++ (refusedRun after ++ ' ' :: rest))) ≠ .ok t := by
  intro ht
  rw [Tree.ofLine, Unfinished.read_eq_ok_iff, Token.ofLine, String.toList_ofList] at ht
  obtain ⟨w, hrun, -⟩ := ht
  obtain ⟨l, more, hpieces, hstep⟩ := h.exists_pieces hne rest
  rw [hpieces, Token.place_append, Unfinished.run_append, h.run, Option.bind_some, chars_pieces,
    Nat.zero_add, Token.place, Unfinished.run_cons, hstep] at hrun
  cases hrun

end StopsAt

end ArithLine

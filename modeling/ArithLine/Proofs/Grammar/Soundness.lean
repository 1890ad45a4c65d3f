import ArithLine.Proofs.Grammar.Invariant
import ArithLine.Proofs.Grammar.Run

/-!
# Whatever is read has a derivation

* `Unfinished.Reads.step`: one token keeps the invariant, but for a minus that is an
  operator with the digits that it touches. There the reader takes two tokens in one step.
* `Unfinished.Reads.run`: so all the tokens of a line keep it, where such a minus is set
  apart. The tokens still cover the line (`Covers.split_minus`).
* `exists_derives_of_ofLine`: a line that is read has a derivation, and its tree is that
  derivation.
-/

namespace ArithLine

open Grammar Derivation

variable {line : List Char} {stop : ℕ}

/-! ## Tokens that cover a line -/

/-- A minus may be set apart from its digits. -/
theorem Covers.split_minus {n m : ℕ} {ds : List Char} {ts us : List Token} {cs : List Char}
    (h : Covers n (ts ++ ⟨.signed ds, m⟩ :: us) cs) :
    Covers n (ts ++ ⟨.glyph (.op .sub), m⟩ :: ⟨.word ds, m + 1⟩ :: us) cs := by
  generalize hts : ts ++ ⟨.signed ds, m⟩ :: us = as at h
  induction h generalizing ts with
  | done => simp at hts
  | blank hb _ ih => exact .blank hb (ih hts)
  | @token n l as cs hl hr ih =>
    cases ts with
    | nil =>
      cases hts
      obtain ⟨hw, hall⟩ := isWordChar_of_isNumeral hl.1
      refine .token (l := .glyph (.op .sub)) trivial (.token (l := .word ds) ⟨hw, hall, hl.2⟩ ?_)
      simpa [Lexeme.chars, Nat.add_assoc] using hr
    | cons t ts =>
      cases hts
      exact .token hl (ih rfl)

/-- Only blanks stand between some of the tokens of a line and the next one. -/
theorem Covers.spaced_before {ts us : List Token} {t : Token} (h : Covers 0 (ts ++ t :: us) line) :
    Spaced line ts t.start := (spaced_append.1 (h.spaced [] rfl)).1

/-- What follows a minus that is kept with it is a numeral. -/
theorem Covers.isNumeral {n : ℕ} {ts : List Token} {cs : List Char} (h : Covers n ts cs) :
    ∀ t ∈ ts, ∀ ds, t.lexeme = .signed ds → Word.isNumeral ds := by
  induction h with
  | done => simp
  | blank _ _ ih => exact ih
  | token hl _ ih =>
    rintro t (_ | ⟨_, ht⟩) ds hds
    · obtain rfl : _ = Lexeme.signed ds := hds
      exact hl.1
    · exact ih t ht ds hds

/-! ## Steps -/

namespace Unfinished

variable {s : List Frame} {l : Level} {ts us : List Token} {v : Unfinished}

/-- A word or a signed numeral is an atom. -/
theorem exists_atom (line : List Char) {t : Token} (ht : ∀ g, t.lexeme ≠ .glyph g)
    (hd : ∀ ds, t.lexeme = .signed ds → Word.isNumeral ds) :
    ∃ a, Of (.layer .atom) a ∧ a.lower line = [t.operand] ∧ a.yield = [t] := by
  obtain ⟨g | w | ds, n⟩ := t
  · exact absurd rfl (ht g)
  · cases hc : Word.classify w with
    | numeral =>
      refine ⟨_, of_atom_iff.2 ⟨_, .numeral (of_numeral_iff.2
        ⟨⟨.word w, n⟩, Word.classify_eq_numeral_iff.1 hc, rfl⟩), rfl⟩, ?_, rfl⟩
      simp [lower, lowerAll, Token.operand, hc, extent, Tree.spanning]
    | name =>
      refine ⟨_, of_atom_iff.2 ⟨_, .var (of_var_iff.2
        ⟨w, n, Word.classify_eq_name_iff.1 hc, rfl⟩), rfl⟩, ?_, rfl⟩
      simp [lower, lowerAll, Token.operand, hc, extent, Tree.spanning]
    | unknown =>
      refine ⟨_, of_atom_iff.2 ⟨_, .unknown (of_unknown_iff.2 ⟨w, n, ⟨?_, ?_⟩, rfl⟩), rfl⟩, ?_, rfl⟩
      · rw [← Word.classify_eq_numeral_iff, hc]; simp
      · rw [← Word.classify_eq_name_iff, hc]; simp
      · simp [lower, lowerAll, Token.operand, hc]
  · refine ⟨_, of_atom_iff.2 ⟨_, .numeral (of_numeral_iff.2
      ⟨⟨.signed ds, n⟩, hd ds rfl, rfl⟩), rfl⟩, ?_, rfl⟩
    simp [lower, lowerAll, Token.operand, extent, Tree.spanning]

/-- One token where an operand is wanted. -/
theorem reads_stepOperand {t : Token} (hs : StackReads line s ts) (hl : LevelReads line l us)
    (hd : ∀ ds, t.lexeme = .signed ds → Word.isNumeral ds) (h : stepOperand s l t = some v) :
    v.Reads line (ts ++ us ++ [t]) := by
  unfold stepOperand at h
  split at h
  · next hg =>
    obtain ⟨_, n⟩ := t
    obtain rfl : _ = Lexeme.glyph .opening := hg
    cases h
    exact .opened (.group n hs hl)
  · cases h
  all_goals
    next hw =>
      cases h
      obtain ⟨a, ha, hlow, hyield⟩ := exists_atom line (t := t) (by simp [hw]) hd
      rw [← hlow, ← hyield]
      exact .ended hs hl ha

/-- A closing parenthesis after an expression. -/
theorem reads_stepClosing {e : Derivation} {t : Tree} {n : ℕ} (hs : StackReads line s ts)
    (he : Of (.rule .expr) e) (hlow : e.lower line = [t])
    (h : stepClosing s t (Token.leaf ⟨.glyph .closing, n⟩) = some v) :
    v.Reads line (ts ++ e.yield ++ [⟨.glyph .closing, n⟩]) := by
  cases hs with
  | nil => cases h
  | @group s l ts us m hs hl =>
    cases h
    have ha := of_atom_iff.2 ⟨_, .group m n he, rfl⟩
    have := Reads.ended hs hl ha
    simpa [lower, lowerAll, hlow, yield, yieldAll] using this
  | @binding s f bs ts us w m k hs hf hw =>
    cases h
    obtain ⟨hbs, us, a, b, c, hl, hbefore, rfl⟩ := hf
    have hb := of_binding_iff.2 ⟨m, w, k, e, n, hw, he, rfl⟩
    have hf : OpenLet.Reads line ((((f.push (Token.leaf ⟨.glyph .opening, m⟩)).push
        (Token.leaf ⟨.word w, k⟩)).push t).push (Token.leaf ⟨.glyph .closing, n⟩)) (bs ++ [_]) _ :=
      ⟨by simpa [or_imp, forall_and] using ⟨hbs, hb⟩, us, a, b, c, hl,
        by simp [OpenLet.push, hbefore, lowerAll, lower, hlow], rfl⟩
    have := Reads.bindings hs hf (show true = _ by simp)
    simpa [yieldAll, yield] using this
  | @body s f bs ts us m hs hf hb =>
    cases h
    obtain ⟨hbs, us, a, b, c, hl, hbefore, rfl⟩ := hf
    have hlet := of_letForm_iff.2 ⟨a, b, c, bs, m, e, n, hb, hbs, he, rfl⟩
    have ha := of_atom_iff.2 ⟨_, .letForm hlet, rfl⟩
    have := Reads.ended hs hl ha
    simpa [lower, lowerAll, hlow, yield, yieldAll, letTail, extent, Tree.spanning, OpenLet.push,
      hbefore] using this

/-- One token after an operand, if it is not a minus with the digits that it touches. -/
theorem reads_stepEnded {a : Derivation} {t : Token} (hs : StackReads line s ts)
    (hl : LevelReads line l us) (ha : Of (.layer .atom) a)
    (hsp : Spaced line (ts ++ us ++ a.yield) t.start) (ht : ∀ ds, t.lexeme ≠ .signed ds)
    (h : stepEnded s l (a.lower line) t = some v) :
    v.Reads line (ts ++ us ++ a.yield ++ [t]) := by
  obtain ⟨g | w | ds, n⟩ := t
  · rw [List.append_assoc] at hsp
    have hsp := (spaced_append.1 hsp).2
    match g with
    | .opening => cases h
    | .closing =>
      obtain ⟨e, he, hlow, hyield⟩ := hl.close ha hsp
      have := reads_stepClosing hs he hlow h
      rwa [hyield, ← List.append_assoc] at this
    | .op o =>
      obtain ⟨l', hl', rfl⟩ := Option.map_eq_some_iff.1 h
      have := Reads.operand hs (hl.operator? ha hsp hl')
      simpa using this
  · cases h
  · exact absurd rfl (ht ds)

/-- What has been read is kept by one token, if it is not a minus that is an operator with the
digits that it touches. -/
theorem Reads.step {u : Unfinished} {t : Token} (hu : u.Reads line ts)
    (hsp : Spaced line ts t.start) (hd : ∀ ds, t.lexeme = .signed ds → Word.isNumeral ds)
    (hm : ∀ ds, t.lexeme = .signed ds → u.step ⟨.glyph (.op .sub), t.start⟩ = none)
    (h : u.step t = some v) : v.Reads line (ts ++ [t]) := by
  cases hu with
  | @opened s l o ts hs =>
    simp only [Unfinished.step] at h
    split at h
    · next hw =>
      obtain ⟨_, n⟩ := t
      obtain rfl : _ = Lexeme.word _ := hw
      cases h
      exact .reserved n hs
    · have := reads_stepOperand hs levelReads_fresh hd h
      simpa using this
  | operand hs hl => exact reads_stepOperand hs hl hd h
  | @ended s l ts us a hs hl ha =>
    refine reads_stepEnded hs hl ha hsp (fun ds hds => ?_) h
    have hm := hm ds hds
    simp only [Unfinished.step] at h hm
    rw [stepEnded_signed hds, hm] at h
    cases h
  | @reserved s l o ts n hs =>
    simp only [Unfinished.step] at h
    split at h
    · next hg =>
      obtain ⟨_, k⟩ := t
      obtain rfl : _ = Lexeme.glyph .opening := hg
      cases h
      cases hs with
      | @group _ _ ts us m hs hl =>
        have hf : OpenLet.Reads line ⟨l, _⟩ [] _ := ⟨by simp, us, m, n, k, hl, rfl, rfl⟩
        have := Reads.bindings hs hf rfl
        simpa [letHead, yieldAll, yield, lowerAll, lower] using this
    · next hg =>
      -- the reserved word was an operand of its own
      obtain ⟨a, ha, hlow, hyield⟩ :=
        exists_atom line (t := ⟨.word Word.reserved, n⟩) (by simp) (by simp)
      rw [← hlow] at h
      rw [← hyield] at hsp ⊢
      have := reads_stepEnded hs levelReads_fresh ha (by simpa using hsp) (fun ds hds => ?_) h
      · simpa using this
      · have hm := hm ds hds
        simp only [Unfinished.step, reduceCtorEq, if_false, Lexeme.glyph.injEq, ← hlow] at hm
        rw [stepEnded_signed hds, hm] at h
        cases h
  | @bindings s f hasSome bs ts us hs hf hb =>
    obtain ⟨l, n⟩ := t
    simp only [Unfinished.step] at h
    split at h
    · cases h
      exact .name n hs hf
    · cases h
      have hne : bs ≠ [] := by simpa using hb.symm
      have := Reads.operand (.body n hs hf hne) levelReads_fresh
      simpa using this
    · cases h
  | @name s f bs ts us m hs hf =>
    obtain ⟨l, n⟩ := t
    simp only [Unfinished.step] at h
    split at h
    · split at h
      · next hn =>
        cases h
        have := Reads.operand (.binding m n hs hf hn) levelReads_fresh
        simpa using this
      · cases h
    · cases h

theorem reads_start : start.Reads line [] := .operand .nil levelReads_fresh

end Unfinished

/-! ## Lines -/

/-- **What has been read is kept** by all the tokens of a line that are taken in. -/
theorem Unfinished.Reads.run {u v : Unfinished} {ts us : List Token} (hu : u.Reads line ts)
    (hc : Covers 0 (ts ++ us) line) (h : u.run us = some v) :
    ∃ vs, v.Reads line vs ∧ Covers 0 vs line := by
  induction us generalizing u ts with
  | nil =>
    cases h
    exact ⟨ts, hu, by simpa using hc⟩
  | cons t us ih =>
    rw [run_cons, Option.bind_eq_some_iff] at h
    obtain ⟨w, hw, h⟩ := h
    -- a minus is an operator wherever it can be one
    by_cases hm : ∃ ds x, t.lexeme = .signed ds ∧ u.step ⟨.glyph (.op .sub), t.start⟩ = some x
    · obtain ⟨ds, x, hds, hx⟩ := hm
      obtain ⟨_, n⟩ := t
      obtain rfl : _ = Lexeme.signed ds := hds
      have hminus := hu.step (t := ⟨.glyph (.op .sub), n⟩) hc.spaced_before (by simp) (by simp) hx
      rw [step_signed hx] at hw
      have hc : Covers 0 (ts ++ [⟨.glyph (.op .sub), n⟩] ++ ⟨.word ds, n + 1⟩ :: us) line := by
        simpa using hc.split_minus
      have hword := hminus.step (t := ⟨.word ds, n + 1⟩) hc.spaced_before (by simp) (by simp) hw
      exact ih hword (by simpa using hc) h
    · have hd := hc.isNumeral t (by simp)
      refine ih (hu.step hc.spaced_before hd (fun ds hds => ?_) hw) (by simpa using hc) h
      by_contra hx
      obtain ⟨x, hx⟩ := Option.ne_none_iff_exists'.1 hx
      exact hm ⟨ds, x, hds, hx⟩

/-- **Whatever is read of a line has a derivation.** -/
theorem exists_derives_of_ofLine {line : String} {t : Tree} (h : Tree.ofLine line = .ok t) :
    ∃ d, Derives line d ∧ d.lower line.toList = [t] := by
  rw [Tree.ofLine, Unfinished.read_eq_ok_iff, utf8ByteSize_eq] at h
  obtain ⟨v, hrun, hv⟩ := h
  obtain ⟨ts, hreads, hc⟩ := Unfinished.reads_start.run (covers_place 0 _) hrun
  cases hreads with
  | @ended s l ts us a hs hl ha =>
    cases hs with
    | nil =>
      cases hv
      have hsp := hc.spaced [] rfl
      rw [List.nil_append, List.nil_append, Nat.zero_add] at hsp
      obtain ⟨e, he, hlow, hyield⟩ := hl.close ha hsp
      have hd := of_program_iff.2 ⟨e, he, rfl⟩
      refine ⟨_, ⟨hd.symbol, hd.valid, ?_⟩, ?_⟩
      · rw [yield, yieldAll_singleton, hyield]
        exact hc
      · rw [lower, lowerAll_singleton, hlow]
        rfl
    | _ => cases hv
  | _ => cases hv

end ArithLine

import ArithLine.Proofs.Grammar.Spacing

/-!
# Cutting and joining covered texts

* `Covers.split`: where a token starts, the text that some tokens cover comes apart.
* `Covers.append`: two covered texts make one, if no word runs from the one into the other.
* `Covers.exists_moved`: a text has the same lexemes wherever it stands.
* `Covers.exists_between`: so any lexeme may stand between two texts, if it is kept apart.
-/

namespace ArithLine

/-! ## Where two texts meet -/

/-- Whether a word of one text would go on in the next. -/
def RunsInto (cs ds : List Char) : Prop := cs.getLast?.any isWordChar ∧ ds.head?.any isWordChar

theorem RunsInto.append_left {cs ds : List Char} (h : RunsInto cs ds) (as : List Char) :
    RunsInto (as ++ cs) ds := by
  refine ⟨?_, h.2⟩
  obtain ⟨hlast, -⟩ := h
  rw [List.getLast?_append]
  cases hc : cs.getLast? with
  | none => simp [hc] at hlast
  | some c => simpa [hc] using hlast

/-- A word goes on in any word that follows it. -/
theorem runsInto_word {cs w : List Char} (hlast : cs.getLast?.any isWordChar) (hw : w ≠ [])
    (hall : w.all isWordChar) (ds : List Char) : RunsInto cs (w ++ ds) := by
  obtain ⟨c, r, rfl⟩ := List.exists_cons_of_ne_nil hw
  rw [List.all_cons, Bool.and_eq_true] at hall
  exact ⟨hlast, hall.1⟩

theorem not_runsInto_nil (ds : List Char) : ¬ RunsInto [] ds := fun h => by cases h.1

/-- No word runs into a text that starts with no word character. -/
theorem not_runsInto_of_head {cs ds : List Char} (h : ds.head?.any isWordChar = false) :
    ¬ RunsInto cs ds := fun hr => by simp [hr.2] at h

theorem not_runsInto_glyph (cs : List Char) (g : Glyph) (ds : List Char) :
    ¬ RunsInto cs (g.char :: ds) := not_runsInto_of_head (by simpa using not_isWordChar_char g)

theorem not_runsInto_blank (cs : List Char) {c : Char} (hc : isBlank c) (ds : List Char) :
    ¬ RunsInto cs (c :: ds) := not_runsInto_of_head (by simp [isWordChar, hc])

namespace Lexeme.Precedes

variable {l : Lexeme} {cs ds : List Char}

/-- The characters of a word or a signed numeral end with a word character. -/
theorem getLast?_chars (h : l.Precedes cs) (hl : ∀ g, l ≠ .glyph g) :
    l.chars.getLast?.any isWordChar := by
  have hlast : ∀ w : List Char, w ≠ [] → w.all isWordChar → w.getLast?.any isWordChar := by
    intro w hw hall
    rw [List.getLast?_eq_some_getLast hw, Option.any_some]
    exact List.all_eq_true.1 hall _ (List.getLast_mem hw)
  match l, h with
  | .glyph g, _ => exact absurd rfl (hl g)
  | .word w, ⟨hw, hall, _⟩ => exact hlast w hw hall
  | .signed ds, ⟨hds, _⟩ =>
    obtain ⟨hw, hall⟩ := isWordChar_of_isNumeral hds
    have hdigits := runsInto_word (hlast ds hw hall) hw hall []
    exact (hdigits.append_left ['-']).1

/-- A lexeme stands as well before any text that no word goes on into. -/
theorem of_head (h : l.Precedes cs) (hds : (∀ g, l ≠ .glyph g) →
    cs.head?.any isWordChar = false → ds.head?.any isWordChar = false) : l.Precedes ds := by
  match l, h with
  | .glyph g, _ => trivial
  | .word w, ⟨hw, hall, hcs⟩ => exact ⟨hw, hall, hds (by simp) hcs⟩
  | .signed w, ⟨hw, hcs⟩ => exact ⟨hw, hds (by simp) hcs⟩

/-- A lexeme stands as well before a longer text. -/
theorem append (h : l.Precedes cs) (hr : ¬ RunsInto (l.chars ++ cs) ds) : l.Precedes (cs ++ ds) := by
  refine h.of_head fun hl hcs => ?_
  cases cs with
  | cons c cs => exact hcs
  | nil =>
    rw [List.append_nil] at hr
    have hlast := h.getLast?_chars hl
    by_contra hd
    exact hr ⟨hlast, by simpa using hd⟩

/-- A lexeme stands as well before the start of a text. -/
theorem of_append (h : l.Precedes (cs ++ ds)) : l.Precedes cs :=
  h.of_head fun _ => by cases cs <;> simp

/-- No word runs from a lexeme into what follows it. -/
theorem not_runsInto (h : l.Precedes cs) : ¬ RunsInto l.chars cs := by
  match l, h with
  | .glyph g, _ => exact fun hr => not_isWordChar_char g (by simpa [Lexeme.chars] using hr.1)
  | .word w, ⟨_, _, hcs⟩ => exact not_runsInto_of_head hcs
  | .signed ds, ⟨_, hcs⟩ => exact not_runsInto_of_head hcs

end Lexeme.Precedes

namespace Covers

variable {n : ℕ} {t : Token} {ts us : List Token} {bs cs ds : List Char}

theorem blanks (hbs : bs.all isBlank) (h : Covers (n + byteLength bs) ts cs) :
    Covers n ts (bs ++ cs) := by
  induction bs generalizing n with
  | nil => exact h
  | cons c bs ih =>
    rw [List.all_cons, Bool.and_eq_true] at hbs
    exact .blank hbs.1 (ih hbs.2 (by rwa [byteLength_cons, ← Nat.add_assoc] at h))

theorem glyph (g : Glyph) (h : Covers (n + 1) ts cs) :
    Covers n (⟨.glyph g, n⟩ :: ts) (g.char :: cs) :=
  .token (l := .glyph g) trivial (by simpa [Lexeme.chars] using h)

theorem all_isBlank (h : Covers n [] cs) : cs.all isBlank := by
  generalize hts : [] = ts at h
  induction h with
  | done n => rfl
  | blank hc _ ih => simp [hc, ih hts]
  | token => cases hts

theorem eq_nil (h : Covers n ts []) : ts = [] := by
  generalize hcs : [] = cs at h
  cases h with
  | done n => rfl
  | blank => cases hcs
  | token hl _ =>
    obtain ⟨c, r, hc, -⟩ := hl.chars_eq
    rw [hc] at hcs
    cases hcs

/-- A text that ends with a word character ends with a token that is no glyph. -/
theorem exists_last (h : Covers n ts cs) (hcs : cs.getLast?.any isWordChar) :
    ∃ us t, ts = us ++ [t] ∧ ∀ g, t.lexeme ≠ .glyph g := by
  induction h with
  | done n => cases hcs
  | @blank n c ts cs hb _ ih =>
    cases cs with
    | nil => simp [isWordChar, hb] at hcs
    | cons d cs => exact ih (by simpa [List.getLast?_cons_cons] using hcs)
  | @token n l ts cs hl hrest ih =>
    cases cs with
    | nil =>
      obtain rfl := hrest.eq_nil
      refine ⟨[], ⟨l, n⟩, rfl, fun g hg => ?_⟩
      obtain rfl : l = .glyph g := hg
      exact not_isWordChar_char g (by simpa [Lexeme.chars] using hcs)
    | cons c cs =>
      rw [List.getLast?_append_of_ne_nil _ (List.cons_ne_nil c cs)] at hcs
      obtain ⟨us, t, rfl, ht⟩ := ih hcs
      exact ⟨⟨l, n⟩ :: us, t, rfl, ht⟩

/-- **Two covered texts make one**, if no word runs from the one into the other. -/
theorem append (h : Covers n ts cs) (hd : Covers (n + byteLength cs) us ds)
    (hr : ¬ RunsInto cs ds) : Covers n (ts ++ us) (cs ++ ds) := by
  induction h with
  | done n => exact hd
  | @blank n c ts cs hb _ ih =>
    refine .blank hb (ih (by rwa [byteLength_cons, ← Nat.add_assoc] at hd) fun h => hr ?_)
    exact h.append_left [c]
  | @token n l ts cs hl _ ih =>
    rw [List.cons_append, List.append_assoc]
    refine .token (hl.append hr) (ih ?_ fun h => hr (h.append_left _))
    rwa [byteLength_append, ← Nat.add_assoc] at hd

/-- **Where a token starts, the text comes apart.** -/
theorem split (h : Covers n (ts ++ t :: us) cs) : ∃ before after,
    cs = before ++ (t.lexeme.chars ++ after) ∧ t.start = n + byteLength before ∧
      Covers n ts before ∧ t.lexeme.Precedes after ∧ Covers t.stop us after ∧
      ¬ RunsInto before (t.lexeme.chars ++ after) := by
  generalize hvs : ts ++ t :: us = vs at h
  induction h generalizing ts with
  | done n => simp at hvs
  | @blank n c vs cs hb _ ih =>
    obtain ⟨before, after, rfl, hstart, hts, hprec, hus, hr⟩ := ih hvs
    refine ⟨c :: before, after, rfl, by rw [hstart, byteLength_cons, Nat.add_assoc], .blank hb hts,
      hprec, hus, fun h => ?_⟩
    cases before with
    | nil =>
      have hc : isWordChar c := by simpa using h.1
      simp [isWordChar, hb] at hc
    | cons b before => exact hr ⟨by simpa [List.getLast?_cons_cons] using h.1, h.2⟩
  | @token n l vs cs hl hrest ih =>
    cases ts with
    | nil =>
      cases hvs
      exact ⟨[], cs, rfl, rfl, .done n, hl, hrest, not_runsInto_nil _⟩
    | cons u ts =>
      cases hvs
      obtain ⟨before, after, rfl, hstart, hts, hprec, hus, hr⟩ := ih rfl
      refine ⟨l.chars ++ before, after, by rw [List.append_assoc],
        by rw [hstart, byteLength_append, Nat.add_assoc], .token hl.of_append hts, hprec, hus,
        fun h => ?_⟩
      cases before with
      | nil => exact hl.not_runsInto (by simpa using h)
      | cons b before =>
        refine hr ⟨?_, h.2⟩
        have hlast := h.1
        rwa [List.getLast?_append_of_ne_nil _ (List.cons_ne_nil b before)] at hlast

/-- Where the first of some tokens stands. -/
theorem exists_first (h : Covers n (t :: ts) cs) : ∃ bs rest,
    cs = bs ++ (t.lexeme.chars ++ rest) ∧ bs.all isBlank ∧ t.lexeme.Precedes rest ∧
      Covers t.stop ts rest := by
  rw [← List.nil_append (t :: ts)] at h
  obtain ⟨before, after, hcs, -, hbefore, hprec, hts, -⟩ := h.split
  exact ⟨before, after, hcs, hbefore.all_isBlank, hprec, hts⟩

/-- A text has the same lexemes wherever it stands. -/
theorem exists_moved (h : Covers n ts cs) (m : ℕ) :
    ∃ us, us.map Token.lexeme = ts.map Token.lexeme ∧ Covers m us cs := by
  induction h generalizing m with
  | done n => exact ⟨[], rfl, .done m⟩
  | @blank n c ts cs hb _ ih =>
    obtain ⟨us, hus, hcov⟩ := ih (m + c.utf8Size)
    exact ⟨us, hus, .blank hb hcov⟩
  | @token n l ts cs hl _ ih =>
    obtain ⟨us, hus, hcov⟩ := ih (m + byteLength l.chars)
    exact ⟨⟨l, m⟩ :: us, by simp [hus], .token hl hcov⟩

/-- Between two covered texts any lexeme may stand that is kept apart from both. -/
theorem exists_between {m : ℕ} {l : Lexeme} (h : Covers n ts cs) (hd : Covers m us ds)
    (hl : l.Precedes ds) (hr : ¬ RunsInto cs (l.chars ++ ds)) : ∃ vs,
    vs.map Token.lexeme = us.map Token.lexeme ∧
      Covers n (ts ++ ⟨l, n + byteLength cs⟩ :: vs) (cs ++ (l.chars ++ ds)) := by
  obtain ⟨vs, hvs, hcov⟩ := hd.exists_moved (n + byteLength cs + byteLength l.chars)
  exact ⟨vs, hvs, h.append (.token hl hcov) hr⟩

end Covers

end ArithLine

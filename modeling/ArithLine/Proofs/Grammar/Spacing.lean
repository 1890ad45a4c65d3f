import ArithLine.Proofs.Grammar.Basic

/-!
# Blanks between tokens

Blanks, glyphs and word characters are three kinds of character that do not overlap,
so no lexeme has a blank in it. From this:

* `skipBlanks_append`: where the blanks that start at a byte end.
* `Covers.spaced`: between two tokens that cover a line there are only blanks. This is
  how a token tells where the blanks before it start, and so where a chain of two
  operands ends.
-/

namespace ArithLine

/-! ## Characters -/

theorem isBlank_of_isWordChar {c : Char} (h : isWordChar c) : isBlank c = false := by
  simp only [isWordChar, Bool.and_eq_true, Bool.not_eq_true'] at h; exact h.1

@[simp] theorem Glyph.utf8Size_char (g : Glyph) : g.char.utf8Size = 1 := by
  rcases g with _ | _ | (_ | _ | _ | _) <;> rfl

@[simp] theorem Op.utf8Size_glyph (o : Op) : o.glyph.utf8Size = 1 := Glyph.utf8Size_char (.op o)

@[simp] theorem utf8Size_opening : '('.utf8Size = 1 := rfl

@[simp] theorem utf8Size_closing : ')'.utf8Size = 1 := rfl

@[simp] theorem utf8Size_minus : '-'.utf8Size = 1 := rfl

theorem isBlank_char (g : Glyph) : isBlank g.char = false := by
  rcases g with _ | _ | (_ | _ | _ | _) <;> decide

theorem ofChar?_of_isWordChar {c : Char} (h : isWordChar c) : Glyph.ofChar? c = none := by
  simp only [isWordChar, Bool.and_eq_true, Option.isNone_iff_eq_none] at h; exact h.2

theorem isWordChar_of_ofChar? {c : Char} (h : Glyph.ofChar? c = none) (hb : isBlank c = false) :
    isWordChar c := by simp [isWordChar, h, hb]

theorem not_isWordChar_char (g : Glyph) : ¬ isWordChar g.char := by
  rcases g with _ | _ | (_ | _ | _ | _) <;> decide

theorem ofChar?_of_isBlank {c : Char} (h : isBlank c) : Glyph.ofChar? c = none := by
  simp only [isBlank, Bool.or_eq_true, beq_iff_eq] at h
  rcases h with rfl | rfl <;> decide

/-- What neither a blank nor a glyph satisfies, only word characters satisfy. -/
theorem isWordChar_of_forall {p : Char → Bool} (hb : p ' ' = false ∧ p '\t' = false)
    (hg : ∀ g : Glyph, p g.char = false) {c : Char} (h : p c) : isWordChar c := by
  refine isWordChar_of_ofChar? ?_ ?_
  · cases hc : Glyph.ofChar? c with
    | none => rfl
    | some g =>
      obtain rfl := Glyph.char_of_ofChar? hc
      rw [hg g] at h
      cases h
  · by_contra hc
    simp only [isBlank, Bool.not_eq_false, Bool.or_eq_true, beq_iff_eq] at hc
    rcases hc with rfl | rfl
    · rw [hb.1] at h; cases h
    · rw [hb.2] at h; cases h

theorem isWordChar_of_isDigit {c : Char} (h : c.isDigit) : isWordChar c :=
  isWordChar_of_forall ⟨rfl, rfl⟩ (by rintro (_ | _ | (_ | _ | _ | _)) <;> rfl) h

theorem isWordChar_of_isNameChar {c : Char} (h : Word.isNameChar c) : isWordChar c :=
  isWordChar_of_forall ⟨rfl, rfl⟩ (by rintro (_ | _ | (_ | _ | _ | _)) <;> rfl) h

theorem isWordChar_of_isName {w : List Char} (h : Word.isName w) : w ≠ [] ∧ w.all isWordChar := by
  cases w with
  | nil => cases h
  | cons c r =>
    simp only [Word.isName, Bool.and_eq_true, List.all_eq_true] at h
    refine ⟨List.cons_ne_nil c r, List.all_eq_true.2 (List.forall_mem_cons.2 ⟨?_, fun d hd => ?_⟩)⟩
    · exact isWordChar_of_isNameChar (by simp [Word.isNameChar, Char.isAlphanum, h.1.1])
    · exact isWordChar_of_isNameChar (h.1.2 d hd)

theorem isWordChar_of_isNumeral {ds : List Char} (h : Word.isNumeral ds) :
    ds ≠ [] ∧ ds.all isWordChar := by
  simp only [Word.isNumeral, Bool.and_eq_true, Bool.not_eq_true', List.isEmpty_eq_false_iff,
    List.all_eq_true] at h
  exact ⟨h.1, List.all_eq_true.2 fun c hc => isWordChar_of_isDigit (h.2 c hc)⟩

/-- A lexeme has no blank in it. -/
theorem Lexeme.Precedes.isBlank_eq_false {l : Lexeme} {rest : List Char} (h : l.Precedes rest) :
    ∀ c ∈ l.chars, isBlank c = false := by
  have hword : ∀ {w : List Char}, w.all isWordChar → ∀ c ∈ w, isBlank c = false := fun hw c hc =>
    isBlank_of_isWordChar (List.all_eq_true.1 hw c hc)
  match l, h with
  | .glyph g, _ => simpa [Lexeme.chars] using isBlank_char g
  | .word w, ⟨_, hw, _⟩ => exact hword hw
  | .signed ds, ⟨hds, _⟩ =>
    exact List.forall_mem_cons.2 ⟨by decide, hword (isWordChar_of_isNumeral hds).2⟩

/-- A lexeme starts with a character that is no blank. -/
theorem Lexeme.Precedes.chars_eq {l : Lexeme} {rest : List Char} (h : l.Precedes rest) :
    ∃ c r, l.chars = c :: r ∧ isBlank c = false := by
  obtain ⟨c, r, hc⟩ : ∃ c r, l.chars = c :: r := by
    match l, h with
    | .glyph g, _ => exact ⟨_, _, rfl⟩
    | .word w, ⟨hw, _⟩ => exact List.exists_cons_of_ne_nil hw
    | .signed ds, _ => exact ⟨_, _, rfl⟩
  exact ⟨c, r, hc, h.isBlank_eq_false c (by rw [hc]; exact List.mem_cons_self)⟩

/-! ## Bytes -/

@[simp] theorem byteLength_nil : byteLength [] = 0 := rfl

@[simp] theorem byteLength_cons (c : Char) (cs : List Char) :
    byteLength (c :: cs) = c.utf8Size + byteLength cs := rfl

@[simp] theorem byteLength_append (cs ds : List Char) :
    byteLength (cs ++ ds) = byteLength cs + byteLength ds := by
  induction cs with
  | nil => rw [List.nil_append, byteLength_nil, Nat.zero_add]
  | cons c cs ih => rw [List.cons_append, byteLength_cons, byteLength_cons, ih, Nat.add_assoc]

theorem utf8ByteSize_ofList (cs : List Char) : (String.ofList cs).utf8ByteSize = byteLength cs := by
  induction cs with
  | nil => rfl
  | cons c cs ih =>
    have hc : (String.ofList [c]).utf8ByteSize = c.utf8Size := by
      rw [← String.singleton_eq_ofList, String.utf8ByteSize_singleton]
    rw [← List.singleton_append, String.ofList_append, String.utf8ByteSize_append, ih, hc,
      List.singleton_append, byteLength_cons]

theorem utf8ByteSize_eq (s : String) : s.utf8ByteSize = byteLength s.toList := by
  rw [← utf8ByteSize_ofList, String.ofList_toList]

theorem dropBytes_append (before cs : List Char) :
    dropBytes (byteLength before) (before ++ cs) = cs := by
  induction before with
  | nil => cases cs <;> rfl
  | cons c r ih =>
    have hc := c.utf8Size_pos
    rw [List.cons_append, dropBytes, if_neg (by rw [byteLength_cons]; omega), byteLength_cons,
      Nat.add_sub_cancel_left, ih]

theorem skipBlanks_append (before cs : List Char) :
    skipBlanks (before ++ cs) (byteLength before) =
      byteLength before + byteLength (cs.takeWhile isBlank) := by
  rw [skipBlanks, dropBytes_append]

/-! ## Tokens -/

/-- The start of the first of some tokens, or a byte after all of them. -/
def nextStart (ts : List Token) (stop : ℕ) : ℕ :=
  match ts with
  | [] => stop
  | t :: _ => t.start

theorem nextStart_append (ts us : List Token) (stop : ℕ) :
    nextStart (ts ++ us) stop = nextStart ts (nextStart us stop) := by
  cases ts <;> rfl

/-- Nothing but blanks separates some tokens of a line, and nothing but blanks stands
between the last of them and the byte `stop`, where something else or the end of the line
stands. -/
def Spaced (line : List Char) : List Token → ℕ → Prop
  | [], stop => skipBlanks line stop = stop
  | t :: ts, stop =>
    skipBlanks line t.start = t.start ∧ skipBlanks line t.stop = nextStart ts stop ∧
      Spaced line ts stop

variable {line : List Char} {ts us : List Token} {stop : ℕ}

theorem Spaced.skip_nextStart (h : Spaced line ts stop) :
    skipBlanks line (nextStart ts stop) = nextStart ts stop := by
  cases ts with
  | nil => exact h
  | cons t ts => exact h.1

theorem Spaced.skip_stop (h : Spaced line ts stop) : skipBlanks line stop = stop := by
  induction ts with
  | nil => exact h
  | cons t ts ih => exact ih h.2.2

theorem Spaced.skip_last (h : Spaced line ts stop) :
    ∀ t ∈ ts.getLast?, skipBlanks line t.stop = stop := by
  induction ts with
  | nil => simp
  | cons t ts ih =>
    cases ts with
    | nil => simpa [nextStart] using h.2.1
    | cons u ts => simpa using ih h.2.2

theorem spaced_append :
    Spaced line (ts ++ us) stop ↔ Spaced line ts (nextStart us stop) ∧ Spaced line us stop := by
  induction ts with
  | nil => exact ⟨fun h => ⟨h.skip_nextStart, h⟩, fun h => h.2⟩
  | cons t ts ih => simp only [List.cons_append, Spaced, ih, nextStart_append, and_assoc]

namespace Covers

variable {n : ℕ} {cs : List Char}

theorem nextStart_eq (h : Covers n ts cs) :
    nextStart ts (n + byteLength cs) = n + byteLength (cs.takeWhile isBlank) := by
  induction h with
  | done n => rfl
  | blank hb _ ih => simpa [List.takeWhile_cons, hb, Nat.add_assoc] using ih
  | token hl _ _ =>
    obtain ⟨c, r, hc, hb⟩ := hl.chars_eq
    simp [nextStart, hc, hb]

theorem spaced (h : Covers n ts cs) (before : List Char) (hn : byteLength before = n) :
    Spaced (before ++ cs) ts (n + byteLength cs) := by
  induction h generalizing before with
  | done n => subst hn; simpa [Spaced] using skipBlanks_append before []
  | @blank n c ts cs hb _ ih =>
    have := ih (before ++ [c]) (by simp [hn])
    simpa [Nat.add_assoc] using this
  | @token n l ts cs hl hr ih =>
    subst hn
    -- no blank starts a lexeme, and the blanks after one end where the next one starts
    obtain ⟨c, r, hc, hb⟩ := hl.chars_eq
    have h1 := skipBlanks_append before (l.chars ++ cs)
    have h2 := skipBlanks_append (before ++ l.chars) cs
    have h3 := ih (before ++ l.chars) (by simp)
    have h4 := hr.nextStart_eq
    rw [List.append_assoc] at h2 h3
    rw [byteLength_append, ← Nat.add_assoc]
    refine ⟨by rw [h1, hc]; simp [hb], ?_, h3⟩
    rw [h4, ← byteLength_append, ← h2, byteLength_append]
    rfl

theorem le_start (h : Covers n ts cs) : ∀ t ∈ ts, n ≤ t.start := by
  induction h with
  | done n => simp
  | blank _ _ ih => exact fun t ht => le_trans (Nat.le_add_right _ _) (ih t ht)
  | token _ _ ih =>
    rintro t (_ | ⟨_, ht⟩)
    · exact le_rfl
    · exact le_trans (Nat.le_add_right _ _) (ih t ht)

/-- The first of some tokens, if it stands at the start of what they cover. -/
theorem cons_inv {l : Lexeme} (h : Covers n (⟨l, n⟩ :: ts) cs) :
    ∃ r, cs = l.chars ++ r ∧ l.Precedes r ∧ Covers (n + byteLength l.chars) ts r := by
  cases h with
  | @blank _ c _ r hb hr =>
    have := hr.le_start _ List.mem_cons_self
    have := c.utf8Size_pos
    simp only at *
    omega
  | token hl hr => exact ⟨_, rfl, hl, hr⟩

end Covers

end ArithLine

import ArithLine.Json.OfText
import ArithLine.Proofs.Meaning
import Mathlib.Data.List.TakeWhile

/-!
# Written JSON is read back

* `Json.IsWritten`: what is ever written, values made of whole numbers, texts, arrays and records.
* `Json.Lexes`: characters that are read as some tokens, whatever follows that cannot belong to the
  last of them. The text of a value is read as its tokens (`IsWritten.lexes`).
* `Json.Spells`: tokens that are read as a value, in whatever containers. The tokens of a value are
  (`IsWritten.spells`).
* `Json.ofText?_render`: so a value is read back from its text.
-/

namespace ArithLine

/-! ## Numbers -/

namespace Numeral

theorem value_toDigits (n : ℕ) : value (Nat.toDigits 10 n) = n := by
  have h := Nat.ofDigitChars_ten_toDigits (n := n)
  rwa [Nat.ofDigitChars_eq_foldl] at h

theorem isNumeral_toDigits (n : ℕ) : Word.isNumeral (Nat.toDigits 10 n) := by
  have hdigits : ∀ c ∈ Nat.toDigits 10 n, c.isDigit := fun c hc =>
    Nat.isDigit_of_mem_toDigits (by decide) (by decide) hc
  have hne : Nat.toDigits 10 n ≠ [] := Nat.toDigits_ne_nil
  simpa [Word.isNumeral, hne] using hdigits

/-- No needless zero is written. -/
theorem head?_toDigits_ne {n : ℕ} (hn : n ≠ 0) : (Nat.toDigits 10 n).head? ≠ some '0' := by
  have hdigit : ∀ d < 10, d ≠ 0 → [Nat.digitChar d].head? ≠ some '0' := by decide
  induction n using Nat.strong_induction_on with
  | _ n ih =>
    by_cases h : n < 10
    · rw [Nat.toDigits_of_lt_base h]
      exact hdigit n h hn
    · have hhead := ih (n / 10) (by omega) (by omega)
      obtain ⟨c, cs, hcs⟩ :=
        List.exists_cons_of_ne_nil (Nat.toDigits_ne_nil (n := n / 10) (b := 10))
      rw [Nat.toDigits_of_base_le (by decide) (by omega), hcs]
      rwa [hcs] at hhead

theorem signedValue_of_isNumeral {ds : List Char} (h : Word.isNumeral ds) :
    signedValue ds = value ds := by
  unfold signedValue
  split
  · simp [Word.isNumeral] at h
  · rfl

theorem toList_ofInt (n : ℤ) : (ofInt n).toList =
    if n < 0 then '-' :: Nat.toDigits 10 n.natAbs else Nat.toDigits 10 n.natAbs := by
  rw [ofInt]
  split <;> simp [ofNat]

theorem isLiteral_ofInt (n : ℤ) : IsLiteral (ofInt n).toList := by
  refine ⟨Nat.toDigits 10 n.natAbs, isNumeral_toDigits _, ?_⟩
  rw [toList_ofInt]
  split
  · exact .inr rfl
  · exact .inl rfl

/-- **A number is read back from its digits.** -/
theorem toInt?_ofInt (n : ℤ) : toInt? (ofInt n).toList = some n := by
  rw [toInt?_of_isLiteral (isLiteral_ofInt n), toList_ofInt]
  split
  · rw [signedValue, value_toDigits]
    congr 1
    omega
  · rw [signedValue_of_isNumeral (isNumeral_toDigits _), value_toDigits]
    congr 1
    omega

/-- Zero is written without a sign. -/
theorem ofInt_ne_minus_zero (n : ℤ) : (ofInt n).toList ≠ ['-', '0'] := by
  intro h
  rw [toList_ofInt] at h
  split at h
  · have hhead := head?_toDigits_ne (n := n.natAbs) (by omega)
    rw [(List.cons.inj h).2] at hhead
    exact hhead rfl
  · have hnum := isNumeral_toDigits n.natAbs
    rw [h] at hnum
    cases hnum

end Numeral

namespace Json

/-- The digits of a number are plain, and nothing comes after them. -/
theorem isNumber_ofInt (n : ℤ) : isNumber (Numeral.ofInt n).toList := by
  obtain ⟨ds, hds⟩ : ∃ ds, Nat.toDigits 10 n.natAbs = ds := ⟨_, rfl⟩
  have hnum : Word.isNumeral ds := hds ▸ Numeral.isNumeral_toDigits n.natAbs
  obtain ⟨hne, hall⟩ : ds ≠ [] ∧ ∀ c ∈ ds, c.isDigit := by
    simpa [Word.isNumeral] using hnum
  have hplain : isPlain ds := by
    have hzero : ds.head? ≠ some '0' ∨ ds = ['0'] := by
      by_cases h0 : n.natAbs = 0
      · rw [h0] at hds
        exact .inr hds.symm
      · exact .inl (hds ▸ Numeral.head?_toDigits_ne h0)
    simpa [isPlain, hnum] using hzero
  have hunsigned : (if (Numeral.ofInt n).toList.head? == some '-' then (Numeral.ofInt n).toList.tail
      else (Numeral.ofInt n).toList) = ds := by
    rw [Numeral.toList_ofInt, hds]
    split
    · rfl
    · obtain ⟨c, r, rfl⟩ := List.exists_cons_of_ne_nil hne
      have hc : c ≠ '-' := by
        rintro rfl
        exact absurd (hall '-' List.mem_cons_self) (by decide)
      simp [hc]
  have hrest : ds.dropWhile Char.isDigit = [] := List.dropWhile_eq_nil_iff.2 hall
  rw [isNumber, hunsigned, List.takeWhile_eq_self_iff.2 hall, hrest, hplain]
  rfl

/-- **Values that are ever written**: whole numbers, texts, arrays and records. -/
inductive IsWritten : Json → Prop
  | int (n : ℤ) : IsWritten (.int n)
  | text (s : String) : IsWritten (.text s)
  | array {vs : List Json} (h : ∀ v ∈ vs, IsWritten v) : IsWritten (.array vs)
  | record {fs : List (String × Json)} (h : ∀ f ∈ fs, IsWritten f.2) : IsWritten (.record fs)

/-! ## Tokens -/

/-- Reads the characters that are left of a text. -/
def Pass.run (p : Pass) (cs : List Char) : Option (List Token) := (cs.foldlM step p).bind finish?

theorem Pass.run_cons (p : Pass) (c : Char) (cs : List Char) :
    p.run (c :: cs) = (p.step c).bind fun q => q.run cs := by
  rw [run, List.foldlM_cons]
  cases p.step c <;> rfl

/-- Whether a bare token that some characters follow ends there. -/
def Delimited (rest : List Char) : Prop := ∀ c ∈ rest.head?, isBare c = false

/-- **Characters that are read as some tokens**, whatever follows that is apart from them. -/
def Lexes (cs : List Char) (us : List Token) : Prop :=
  ∀ ts rest, Delimited rest →
    Pass.run ⟨ts, .between⟩ (cs ++ rest) = Pass.run ⟨us.reverse ++ ts, .between⟩ rest

namespace Lexes

variable {cs cs' : List Char} {us us' : List Token} {c : Char}

theorem nil : Lexes [] [] := fun _ _ _ => rfl

theorem isBare_of_isMark (hc : isMark c) : isBare c = false := by
  simp only [isMark, List.contains_iff_mem, List.mem_cons, List.not_mem_nil, or_false] at hc
  rcases hc with rfl | rfl | rfl | rfl | rfl | rfl <;> decide

theorem step_mark (hc : isMark c) (ts : List Token) :
    Pass.step ⟨ts, .between⟩ c = some ⟨.mark c :: ts, .between⟩ := by
  have hb : isBlank c = false := by
    simp only [isMark, List.contains_iff_mem, List.mem_cons, List.not_mem_nil, or_false] at hc
    rcases hc with rfl | rfl | rfl | rfl | rfl | rfl <;> decide
  simp [Pass.step, Pass.stepBetween, hb, hc]

/-- A mark needs nothing between itself and what follows. -/
theorem mark (hc : isMark c) (h : Lexes cs us) : Lexes (c :: cs) (.mark c :: us) := by
  intro ts rest hrest
  rw [List.cons_append, Pass.run_cons, step_mark hc, Option.bind_some, h _ _ hrest]
  simp

/-- A mark ends what it follows. -/
theorem before_mark (h : Lexes cs us) (hc : isMark c) (h' : Lexes cs' us') :
    Lexes (cs ++ c :: cs') (us ++ .mark c :: us') := by
  intro ts rest hrest
  have hmark : Delimited ((c :: cs') ++ rest) := fun d hd => by
    rw [← Option.some.inj hd]
    exact isBare_of_isMark hc
  rw [List.append_assoc, h _ _ hmark, mark hc h' _ _ hrest]
  simp

theorem run_bare (hcs : cs.all isBare) (read : List Char) (ts : List Token) (rest : List Char) :
    Pass.run ⟨ts, .bare read⟩ (cs ++ rest) = Pass.run ⟨ts, .bare (cs.reverse ++ read)⟩ rest := by
  induction cs generalizing read with
  | nil => rfl
  | cons c cs ih =>
    rw [List.all_cons, Bool.and_eq_true] at hcs
    have hstep : Pass.step ⟨ts, .bare read⟩ c = some ⟨ts, .bare (c :: read)⟩ := by
      simp [Pass.step, hcs.1]
    rw [List.cons_append, Pass.run_cons, hstep, Option.bind_some, ih hcs.2]
    simp

theorem step_bare (hc : isBare c) (ts : List Token) :
    Pass.step ⟨ts, .between⟩ c = some ⟨ts, .bare [c]⟩ := by
  have hmark : isMark c = false := by
    by_contra h
    rw [isBare_of_isMark (Bool.not_eq_false _ ▸ h)] at hc
    cases hc
  have hblank : isBlank c = false := by
    by_contra h
    simp only [isBlank, Bool.not_eq_false, Bool.or_eq_true, beq_iff_eq] at h
    rcases h with ((rfl | rfl) | rfl) | rfl <;> cases hc
  have hquote : c ≠ '"' := by
    rintro rfl
    cases hc
  simp [Pass.step, Pass.stepBetween, hmark, hblank, hquote, hc]

/-- A scalar ends where something else stands. -/
theorem scalar {v : Json} (hne : cs ≠ []) (hcs : cs.all isBare) (hv : scalar? cs = some v) :
    Lexes cs [.scalar v] := by
  intro ts rest hrest
  obtain ⟨c, r, rfl⟩ := List.exists_cons_of_ne_nil hne
  have hr : isBare c ∧ r.all isBare := by simpa using hcs
  rw [List.cons_append, Pass.run_cons, step_bare hr.1, Option.bind_some, run_bare hr.2]
  have hread : (r.reverse ++ [c]).reverse = c :: r := by simp
  -- a scalar becomes a token only at the character after it, or at the end of the text
  cases rest with
  | nil =>
    change (scalar? (r.reverse ++ [c]).reverse).map _ = _
    rw [hread, hv]
    rfl
  | cons d rest =>
    have hd : isBare d = false := hrest d rfl
    have hstep : Pass.step ⟨ts, .bare (r.reverse ++ [c])⟩ d =
        Pass.step ⟨.scalar v :: ts, .between⟩ d := by
      simp only [Pass.step, hd, hread, hv]
      rfl
    rw [Pass.run_cons, hstep, ← Pass.run_cons]
    rfl

theorem int (n : ℤ) : Lexes (Numeral.ofInt n).toList [.scalar (.int n)] := by
  have hnum := isNumber_ofInt n
  refine scalar ?_ ?_ ?_
  · intro h
    rw [h] at hnum
    cases hnum
  · obtain ⟨ds, hds, hcs⟩ := Numeral.isLiteral_ofInt n
    have hall : ds.all isBare := by
      simp only [Word.isNumeral, Bool.and_eq_true, List.all_eq_true] at hds
      refine List.all_eq_true.2 fun c hc => ?_
      simp [isBare, Char.isAlphanum, hds.2 c hc]
    rcases hcs with hcs | hcs
    · rw [hcs]
      exact hall
    · rw [hcs, List.all_cons, hall]
      rfl
  · have hne : ∀ cs, isNumber cs = false → (Numeral.ofInt n).toList ≠ cs := by
      rintro cs hcs rfl
      rw [hnum] at hcs
      cases hcs
    rw [scalar?, if_neg (hne _ (by decide)), if_neg (hne _ (by decide)),
      if_neg (hne _ (by decide)), if_pos hnum]
    rfl

/-! ## Texts -/

theorem hexValue?_hexDigit (n : ℕ) : hexValue? (hexDigit n) = some (n % 16) := by
  have h : ∀ d < 16, hexValue? (Nat.digitChar d) = some d := by decide
  exact h _ (Nat.mod_lt _ (by decide))

/-- A character is read back from its escape. -/
theorem run_escape (c : Char) (read : List ℕ) (ts : List Token) (rest : List Char) :
    Pass.run ⟨ts, .quoted read⟩ (Json.escape c ++ rest) =
      Pass.run ⟨ts, .quoted (c.toNat :: read)⟩ rest := by
  unfold Json.escape
  split
  case h_8 hquote hslash _ _ _ _ _ =>
    split
    case isTrue hc =>
      -- both digits are read back, and make up the character
      have hvalue : 16 * (c.toNat / 16 % 16) + c.toNat % 16 = c.toNat := by omega
      simp only [List.cons_append, List.nil_append, Pass.run_cons]
      simp [Pass.step, hexValue?_hexDigit, hvalue, show hexValue? '0' = some 0 by decide]
    case isFalse hc =>
      have hstep : Pass.step ⟨ts, .quoted read⟩ c = some ⟨ts, .quoted (c.toNat :: read)⟩ := by
        simp only [Pass.step]
        rw [if_neg hquote, if_neg hslash, if_neg hc]
      rw [List.cons_append, Pass.run_cons, hstep]
      rfl
  all_goals rfl

/-- No character is half of a surrogate pair. -/
theorem join_toNat (cs : List Char) : join (cs.map Char.toNat) = some cs := by
  induction cs with
  | nil => rfl
  | cons c cs ih =>
    have hc : ¬(0xD800 ≤ c.toNat ∧ c.toNat < 0xE000) := by
      have := c.valid
      simp only [UInt32.isValidChar, Nat.isValidChar] at this
      have hn : c.toNat = c.val.toNat := rfl
      omega
    rw [List.map_cons, join.eq_def]
    simp only [if_neg hc, ih, Char.ofNat_toNat]
    rfl

theorem run_escapes (cs : List Char) (read : List ℕ) (ts : List Token) (rest : List Char) :
    Pass.run ⟨ts, .quoted read⟩ (cs.flatMap Json.escape ++ rest) =
      Pass.run ⟨ts, .quoted ((cs.map Char.toNat).reverse ++ read)⟩ rest := by
  induction cs generalizing read with
  | nil => rfl
  | cons c cs ih =>
    rw [List.flatMap_cons, List.append_assoc, run_escape, ih]
    simp

/-- **A text is read back from its quotes**, whatever characters it has. -/
theorem quote (s : String) : Lexes (Json.quote s).toList [.string (some s)] := by
  intro ts rest _
  have hopen : Pass.step ⟨ts, .between⟩ '"' = some ⟨ts, .quoted []⟩ := rfl
  have hclose : Pass.step ⟨ts, .quoted (s.toList.map Char.toNat).reverse⟩ '"' =
      some ⟨.string (some s) :: ts, .between⟩ := by
    simp [Pass.step, join_toNat]
  rw [Json.quote, String.toList_ofList, Json.encode, List.cons_append, Pass.run_cons, hopen,
    Option.bind_some, List.append_assoc, run_escapes, List.append_nil, List.singleton_append,
    Pass.run_cons, hclose]
  rfl

end Lexes

/-! ## The tokens of a value -/

mutual

/-- The tokens of a value's text. -/
def tokens : Json → List Token
  | null => [.scalar null]
  | bool b => [.scalar (bool b)]
  | number cs => [.scalar (number cs)]
  | string s => [.string s]
  | array vs => .mark '[' :: (itemTokens vs ++ [Token.mark ']'])
  | object fs => .mark '\x7b' :: (fieldTokens fs ++ [.mark '\x7d'])

/-- The tokens of some items' texts. -/
def itemTokens : List Json → List Token
  | [] => []
  | [v] => v.tokens
  | v :: vs => v.tokens ++ .mark ',' :: itemTokens vs

/-- The tokens of some fields' texts. -/
def fieldTokens : List (Option String × Json) → List Token
  | [] => []
  | [(k, v)] => .string k :: .mark ':' :: v.tokens
  | (k, v) :: fs => .string k :: .mark ':' :: (v.tokens ++ .mark ',' :: fieldTokens fs)

end

/-- The fields of a record, as they stand in an object. -/
abbrev named (fs : List (String × Json)) : List (Option String × Json) :=
  fs.map fun f => (some f.1, f.2)

theorem Lexes.renderItems {vs : List Json} (h : ∀ v ∈ vs, Lexes v.render.toList v.tokens) :
    Lexes (Json.renderItems vs).toList (itemTokens vs) := by
  induction vs with
  | nil => exact .nil
  | cons v vs ih =>
    have hv := h v List.mem_cons_self
    cases vs with
    | nil => exact hv
    | cons w vs =>
      have hvs := ih fun x hx => h x (List.mem_cons_of_mem _ hx)
      have htext : (Json.renderItems (v :: w :: vs)).toList =
          v.render.toList ++ ',' :: (Json.renderItems (w :: vs)).toList := by
        simp [Json.renderItems]
      rw [htext]
      exact hv.before_mark (by decide) hvs

theorem Lexes.renderFields {fs : List (String × Json)}
    (h : ∀ f ∈ fs, Lexes f.2.render.toList f.2.tokens) :
    Lexes (Json.renderFields (named fs)).toList
      (fieldTokens (named fs)) := by
  induction fs with
  | nil => exact .nil
  | cons f fs ih =>
    have hkey := Lexes.quote f.1
    have hf := h f List.mem_cons_self
    cases fs with
    | nil =>
      have htext : (Json.renderFields (named [f])).toList =
          (Json.quote f.1).toList ++ ':' :: f.2.render.toList := by
        simp [Json.renderFields]
      rw [htext]
      exact hkey.before_mark (by decide) hf
    | cons g fs =>
      have hfs := ih fun x hx => h x (List.mem_cons_of_mem _ hx)
      have htext : (Json.renderFields (named (f :: g :: fs))).toList =
          (Json.quote f.1).toList ++ ':' :: (f.2.render.toList ++ ',' ::
            (Json.renderFields (named (g :: fs))).toList) := by
        simp [Json.renderFields]
      rw [htext]
      exact hkey.before_mark (by decide) (hf.before_mark (by decide) hfs)

/-- **The text of a written value is read as its tokens.** -/
theorem IsWritten.lexes {j : Json} (h : j.IsWritten) : Lexes j.render.toList j.tokens := by
  induction h with
  | int n =>
    rw [Json.int, Json.render, String.toList_ofList]
    exact .int n
  | text s => exact .quote s
  | @array vs _ ih =>
    have htext : (Json.array vs).render.toList =
        '[' :: ((Json.renderItems vs).toList ++ [']']) := by
      simp [Json.render]
    rw [htext]
    exact .mark (by decide) ((Lexes.renderItems ih).before_mark (by decide) .nil)
  | @record fs _ ih =>
    have htext : (Json.record fs).render.toList =
        '\x7b' :: ((Json.renderFields (named fs)).toList ++ ['\x7d']) := by
      simp [Json.render, Json.record]
    rw [htext]
    exact .mark (by decide) ((Lexes.renderFields ih).before_mark (by decide) .nil)

/-! ## Values from tokens -/

/-- **Tokens that are read as a value**, in whatever containers. -/
def Spells (us : List Token) (v : Json) : Prop :=
  ∀ s, us.foldlM Unfinished.step (.value s) = some (.ended s v)

namespace Unfinished

variable {us : List Token} {s : List Frame} {u : Unfinished}

/-- What may stand after a comma may stand first. -/
theorem foldlM_firstItem (hne : us ≠ [])
    (h : us.foldlM step (.value (.array [] :: s)) = some u) :
    us.foldlM step (.firstItem s) = some u := by
  obtain ⟨t, us, rfl⟩ := List.exists_cons_of_ne_nil hne
  rw [List.foldlM_cons] at h ⊢
  have hstep : (firstItem s).step t = (value (.array [] :: s)).step t ∨ t = .mark ']' := by
    unfold step
    split <;> simp_all
  rcases hstep with hstep | rfl
  · rw [hstep, h]
  · -- no value starts with the bracket that would close the array
    cases h

theorem foldlM_firstKey (hne : us ≠ []) (h : us.foldlM step (.key s []) = some u) :
    us.foldlM step (.firstKey s) = some u := by
  obtain ⟨t, us, rfl⟩ := List.exists_cons_of_ne_nil hne
  rw [List.foldlM_cons] at h ⊢
  cases t with
  | string k => exact h
  | mark c => cases h
  | scalar v => cases h

/-- Items are read one after the other, up to the bracket. -/
theorem foldlM_itemTokens {vs : List Json} (hne : vs ≠ []) (h : ∀ v ∈ vs, Spells v.tokens v)
    (acc : List Json) :
    (itemTokens vs ++ [Token.mark ']']).foldlM step (.value (.array acc :: s)) =
      some (.ended s (.array (acc.reverse ++ vs))) := by
  induction vs generalizing acc with
  | nil => contradiction
  | cons v vs ih =>
    have hv := h v List.mem_cons_self (.array acc :: s)
    cases vs with
    | nil =>
      rw [itemTokens, List.foldlM_append, hv]
      simp [step]
    | cons w vs =>
      have hvs := ih (List.cons_ne_nil _ _) (fun x hx => h x (List.mem_cons_of_mem _ hx)) (v :: acc)
      rw [itemTokens, List.append_assoc, List.foldlM_append, hv]
      · simp only [List.cons_append, List.foldlM_cons, step, Option.bind_eq_bind, Option.bind_some]
        rw [hvs]
        simp
      · simp

theorem foldlM_fieldTokens {fs : List (String × Json)} (hne : fs ≠ [])
    (h : ∀ f ∈ fs, Spells f.2.tokens f.2) (acc : List (Option String × Json)) :
    (fieldTokens (named fs) ++ [Token.mark '\x7d']).foldlM step (.key s acc) =
      some (.ended s (.object (acc.reverse ++ named fs))) := by
  induction fs generalizing acc with
  | nil => contradiction
  | cons f fs ih =>
    have hf := h f List.mem_cons_self (.object acc (some f.1) :: s)
    cases fs with
    | nil =>
      simp only [List.map_cons, List.map_nil, fieldTokens, List.cons_append, List.foldlM_cons, step,
        Option.bind_eq_bind, Option.bind_some]
      rw [List.foldlM_append, hf]
      simp [step]
    | cons g fs =>
      have hfs := ih (List.cons_ne_nil _ _) (fun x hx => h x (List.mem_cons_of_mem _ hx))
        ((some f.1, f.2) :: acc)
      simp only [List.map_cons, fieldTokens, List.cons_append, List.foldlM_cons, step,
        Option.bind_eq_bind, Option.bind_some, List.append_assoc] at hfs ⊢
      rw [List.foldlM_append, hf]
      simp only [List.foldlM_cons, step, Option.bind_eq_bind, Option.bind_some]
      rw [hfs]
      simp

end Unfinished

/-- **The tokens of a written value are read as the value.** -/
theorem IsWritten.spells {j : Json} (h : j.IsWritten) : Spells j.tokens j := by
  induction h with
  | int n => exact fun _ => rfl
  | text x => exact fun _ => rfl
  | @array vs _ ih =>
    intro s
    by_cases hvs : vs = []
    · subst hvs
      rfl
    · exact Unfinished.foldlM_firstItem (by simp) (Unfinished.foldlM_itemTokens hvs ih [])
  | @record fs _ ih =>
    intro s
    by_cases hfs : fs = []
    · subst hfs
      rfl
    · exact Unfinished.foldlM_firstKey (by simp) (Unfinished.foldlM_fieldTokens hfs ih [])

/-- **A written value is read back from its text.** -/
theorem ofText?_render {j : Json} (h : j.IsWritten) : ofText? j.render = some j := by
  have htokens : Token.ofText? j.render.toList = some j.tokens := by
    have hrun := h.lexes [] [] (by simp [Delimited])
    rw [List.append_nil] at hrun
    refine hrun.trans ?_
    simp [Pass.run, Pass.finish?]
  -- outside all containers, the value is the whole text
  rw [ofText?, htokens, Option.bind_eq_bind, Option.bind_some, h.spells []]
  rfl

end Json

end ArithLine

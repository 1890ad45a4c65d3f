import ArithLine.Proofs.OrderedChoice.Basic
import Mathlib.Data.List.Perm.Subperm

/-!
# Laws of ordered choice

* `Runs.unique`: a pattern does one thing.
* `Attempts.merge`: attempts after others. What a pattern adds to the attempts does not depend on
  what they were before, not even where a rule replaces the attempts inside it
  (`Attempts.track_merge`).
* `Fails`, `Passes`: so a pattern fails or passes outside of tokens with attempts of its own, and
  there is one law for each way in which a pattern is built.
* `Attempts.Tries`: the attempts at a place, if none are farther on.
-/

namespace ArithLine

theorem Glyph.char_injective {g h : Glyph} (heq : g.char = h.char) : g = h := by
  have hof := congrArg Glyph.ofChar? heq
  rw [Glyph.ofChar?_char, Glyph.ofChar?_char] at hof
  exact Option.some.inj hof

namespace OrderedChoice

@[simp] theorem Result.after_done (ps qs : List Pair) (c : Cursor) (a : Attempts) :
    (done c qs a).after ps = done c (ps ++ qs) a := rfl

/-! ## One result -/

theorem Runs.unique {m : Bool} {e : Pattern} {c : Cursor} {a : Attempts} {o o' : Result}
    (h : Runs m e c a o) (h' : Runs m e c a o') : o = o' := by
  induction h generalizing o' with
  | text h =>
    cases h' with
    | text g => rw [List.append_cancel_left (h.symm.trans g)]
    | text_fail g => exact absurd ⟨_, h.symm⟩ g
  | text_fail h =>
    cases h' with
    | text g => exact absurd ⟨_, g.symm⟩ h
    | text_fail g => rfl
  | one h hp =>
    cases h' with
    | one g gp =>
      obtain ⟨rfl, rfl⟩ := List.cons.inj (h.symm.trans g)
      rfl
    | one_fail g => simp [h, hp] at g
  | one_fail h =>
    cases h' with
    | one g gp => simp [g, gp] at h
    | one_fail g => rfl
  | seq _ _ ih ih' =>
    cases h' with
    | seq g g' => cases ih g; rw [ih' g']
    | seq_fail g => cases ih g
  | seq_fail _ ih =>
    cases h' with
    | seq g g' => cases ih g
    | seq_fail g => exact ih g
  | choice _ ih =>
    cases h' with
    | choice g => exact ih g
    | choice_else g g' => cases ih g
  | choice_else _ _ ih ih' =>
    cases h' with
    | choice g => cases ih g
    | choice_else g g' => cases ih g; exact ih' g'
  | star _ _ ih ih' =>
    cases h' with
    | star g g' => cases ih g; rw [ih' g']
    | star_none g => cases ih g
  | star_none _ ih =>
    cases h' with
    | star g g' => cases ih g
    | star_none g => cases ih g; rfl
  | again _ _ ih ih' =>
    cases h' with
    | again g g' => cases ih g; rw [ih' g']
    | again_none g => cases ih g
  | again_none _ ih =>
    cases h' with
    | again g g' => cases ih g
    | again_none g => cases ih g; rfl
  | opt _ ih =>
    cases h' with
    | opt g => exact ih g
    | opt_none g => cases ih g
  | opt_none _ ih =>
    cases h' with
    | opt g => cases ih g
    | opt_none g => cases ih g; rfl
  | not _ ih =>
    cases h' with
    | not g => rfl
    | not_fail g => cases ih g
  | not_fail _ ih =>
    cases h' with
    | not g => cases ih g
    | not_fail g => rfl
  | start h =>
    cases h' with
    | start g => rfl
    | start_fail g => exact absurd h g
  | start_fail h =>
    cases h' with
    | start g => exact absurd g h
    | start_fail g => rfl
  | stop h =>
    cases h' with
    | stop g => rfl
    | stop_fail g => exact absurd h g
  | stop_fail h =>
    cases h' with
    | stop g => exact absurd g h
    | stop_fail g => rfl
  | call _ ih =>
    cases h' with
    | call g => rw [ih g]
  | call_token _ ih =>
    cases h' with
    | call_token g => exact ih g

/-! ## Attempts after others -/

namespace Attempts

/-- Attempts and then some more: those that are farthest. -/
def merge (a b : Attempts) : Attempts :=
  if a.pos < b.pos then b else if b.pos < a.pos then a else ⟨a.pos, a.rules ++ b.rules⟩

variable {a b k : Attempts} {n : ℕ} {r : Expected}

@[simp] theorem pos_merge (a b : Attempts) : (a.merge b).pos = max a.pos b.pos := by
  grind [merge]

@[simp] theorem merge_nil (a : Attempts) : a.merge {} = a := by
  unfold merge
  rw [if_neg (Nat.not_lt_zero _)]
  split
  · rfl
  · rw [List.append_nil]

@[simp] theorem nil_merge (a : Attempts) : merge {} a = a := by
  unfold merge
  split
  · rfl
  · next h =>
    obtain ⟨n, rs⟩ := a
    obtain rfl : n = 0 := by simpa using h
    rfl

theorem merge_of_lt (h : a.pos < b.pos) : a.merge b = b := if_pos h

theorem merge_of_gt (h : b.pos < a.pos) : a.merge b = a := by
  rw [merge, if_neg (by omega), if_pos h]

theorem merge_of_eq (h : a.pos = b.pos) : a.merge b = ⟨a.pos, a.rules ++ b.rules⟩ := by
  rw [merge, if_neg (by omega), if_neg (by omega)]

theorem merge_same (n : ℕ) (rs rs' : List Expected) :
    merge ⟨n, rs⟩ ⟨n, rs'⟩ = ⟨n, rs ++ rs'⟩ := merge_of_eq rfl

theorem merge_assoc (a b k : Attempts) : (a.merge b).merge k = a.merge (b.merge k) := by
  rcases Nat.lt_trichotomy a.pos b.pos with h | h | h <;>
    rcases Nat.lt_trichotomy b.pos k.pos with h' | h' | h' <;>
    grind [merge]

/-- What a failing rule leaves of the attempts of its body. -/
def collapse (r : Expected) (start : ℕ) (k : Attempts) : Attempts :=
  if start < k.pos ∨ k.pos = start ∧ k.rules.length = 1 then k else ⟨start, [r]⟩

/-- **What a failing rule adds to the attempts depends on its body alone.** -/
theorem track_merge (r : Expected) (start : ℕ) (a k : Attempts) :
    a.track r start (a.merge k) = a.merge (k.collapse r start) := by
  unfold track collapse
  rcases Nat.lt_trichotomy a.pos k.pos with h | h | h
  · rw [merge_of_lt h]
    grind [merge]
  · rw [merge_of_eq h]
    grind [merge]
  · rw [merge_of_gt h]
    grind [merge]

theorem collapse_of_lt {start : ℕ} (h : start < k.pos) : k.collapse r start = k :=
  if_pos (.inl h)

/-- A rule that got nowhere is the only attempt, unless there is just one in its body. -/
theorem collapse_of_le {start : ℕ} (h : k.pos ≤ start) (hk : k.rules.length ≠ 1) :
    k.collapse r start = ⟨start, [r]⟩ := if_neg (by omega)

/-! ### What attempts amount to -/

theorem mem_order (r : Expected) : r ∈ order := by
  rcases r with
    _ | (_ | _ | _ | _ | (_ | _ | _ | _) | _) | _ | _ | _ | (_ | _ | (_ | _ | _ | _)) | _ <;>
    decide

theorem rejection_eq_iff :
    a.rejection = b.rejection ↔ a.pos = b.pos ∧ ∀ r, r ∈ a.rules ↔ r ∈ b.rules := by
  rw [rejection, rejection, Rejection.mk.injEq]
  refine and_congr_right fun _ => ⟨fun h r => ?_, fun h => ?_⟩
  · have hmem : r ∈ order.filter (· ∈ a.rules) ↔ r ∈ order.filter (· ∈ b.rules) := by rw [h]
    simpa [mem_order] using hmem
  · exact List.filter_congr fun r _ => decide_eq_decide.2 (h r)

/-- Rules that stand in the order of the grammar are reported as they are. -/
theorem rejection_of_sublist {rs : List Expected} (h : rs.Sublist order) (n : ℕ) :
    rejection ⟨n, rs⟩ = ⟨n, rs⟩ := by
  have hsub : rs.Sublist (order.filter (· ∈ rs)) := by
    have hfilter := h.filter (· ∈ rs)
    rwa [List.filter_eq_self.2 fun r hr => decide_eq_true hr] at hfilter
  have hnodup : (order.filter (· ∈ rs)).Nodup := List.Pairwise.filter _ (by decide)
  have hle : (order.filter (· ∈ rs)).length ≤ rs.length :=
    (hnodup.subperm fun r hr => of_decide_eq_true (List.mem_filter.1 hr).2).length_le
  rw [rejection, ← hsub.eq_of_length_le hle]

/-- No attempts are farther than a byte, and those at the byte are these. -/
structure Tries (k : Attempts) (n : ℕ) (rs : List Expected) : Prop where
  le : k.pos ≤ n
  mem_iff : ∀ r, r ∈ rs ↔ k.pos = n ∧ r ∈ k.rules

namespace Tries

variable {rs rs' : List Expected} {n' : ℕ}

theorem mk_self (n : ℕ) (rs : List Expected) : Tries ⟨n, rs⟩ n rs := ⟨Nat.le_refl n, by simp⟩

theorem of_lt (h : k.pos < n) : k.Tries n [] :=
  ⟨Nat.le_of_lt h, by simp [Nat.ne_of_lt h]⟩

theorem merge (h : a.Tries n rs) (h' : b.Tries n rs') : (a.merge b).Tries n (rs ++ rs') := by
  obtain ⟨ha, ha'⟩ := h
  obtain ⟨hb, hb'⟩ := h'
  refine ⟨by rw [pos_merge]; omega, fun r => ?_⟩
  grind [Attempts.merge]

theorem congr (h : k.Tries n rs) (hr : ∀ r, r ∈ rs' ↔ r ∈ rs) : k.Tries n rs' :=
  ⟨h.le, fun r => (hr r).trans (h.mem_iff r)⟩

theorem pos_eq (h : k.Tries n rs) (hne : rs ≠ []) : k.pos = n := by
  obtain ⟨r, hr⟩ := List.exists_mem_of_ne_nil rs hne
  exact ((h.mem_iff r).1 hr).1

/-- What a report says where something has been tried. -/
theorem rejection_eq (h : k.Tries n rs) (hne : rs ≠ []) :
    k.rejection = Attempts.rejection ⟨n, rs⟩ := by
  have hn := h.pos_eq hne
  exact rejection_eq_iff.2 ⟨hn, fun r => by simp [h.mem_iff, hn]⟩

end Tries

/-- The attempts are farther than a byte, and a report on them says this. -/
structure Rejects (k : Attempts) (n : ℕ) (x : Rejection) : Prop where
  lt : n < k.pos
  rejection_eq : k.rejection = x

namespace Rejects

variable {x : Rejection}

theorem merge (h : a.Rejects n x) (h' : b.Rejects n x) : (a.merge b).Rejects n x := by
  obtain ⟨hpos, hrules⟩ := rejection_eq_iff.1 (h.rejection_eq.trans h'.rejection_eq.symm)
  refine ⟨by rw [pos_merge]; have := h.lt; omega, h.rejection_eq ▸ ?_⟩
  rw [merge_of_eq hpos, rejection_eq_iff]
  simp [hrules]

theorem of_tries {rs : List Expected} {m : ℕ} (h : k.Tries m rs) (hne : rs ≠ [])
    (hrs : rs.Sublist order) (hn : n < m) : k.Rejects n ⟨m, rs⟩ := by
  refine ⟨?_, (h.rejection_eq hne).trans (rejection_of_sublist hrs m)⟩
  rwa [h.pos_eq hne]

/-- Attempts that are not so far do not count. -/
theorem merge_left (h : k.Rejects n x) (ha : a.pos ≤ n) : (a.merge k).Rejects n x := by
  rw [merge_of_lt (by have := h.lt; omega)]
  exact h

theorem merge_right (h : k.Rejects n x) (ha : a.pos ≤ n) : (k.merge a).Rejects n x := by
  rw [merge_of_gt (by have := h.lt; omega)]
  exact h

theorem mono (h : k.Rejects n x) {n' : ℕ} (hn : n' ≤ n) : k.Rejects n' x :=
  ⟨Nat.lt_of_le_of_lt hn h.lt, h.rejection_eq⟩

end Rejects

end Attempts

/-! ## Blanks -/

namespace Cursor

variable {c d : Cursor} {w r : List Char}

/-- Where no blank stands. -/
def IsSkipped (c : Cursor) : Prop := c.rest.head?.any isBlank = false

theorem skip_of_isSkipped (h : c.IsSkipped) : c.skip = c := by
  obtain ⟨n, cs⟩ := c
  cases cs with
  | nil => rfl
  | cons x cs =>
    have hx : isBlank x = false := h
    simp [skip, hx, byteLength]

theorem isSkipped_skip (c : Cursor) : c.skip.IsSkipped := by
  rw [IsSkipped, skip]
  cases h : c.rest.dropWhile isBlank with
  | nil => rfl
  | cons x r =>
    have := List.head?_dropWhile_not isBlank c.rest
    rw [h] at this
    simpa using this

@[simp] theorem skip_skip (c : Cursor) : c.skip.skip = c.skip :=
  skip_of_isSkipped c.isSkipped_skip

theorem pos_le_skip (c : Cursor) : c.pos ≤ c.skip.pos := Nat.le_add_right _ _

theorem length_skip_le (c : Cursor) : c.skip.rest.length ≤ c.rest.length :=
  (List.dropWhile_suffix _).length_le

theorem upTo_of_append (h : c.rest = w ++ r) (n : ℕ) : c.upTo ⟨n, r⟩ = w := by
  simp [upTo, h]

end Cursor

/-! ## One law for each way to build a pattern -/

/-- **A pattern fails** outside of tokens, and adds these attempts. -/
def Fails (e : Pattern) (c : Cursor) (k : Attempts) : Prop :=
  ∀ a, Runs false e c a (.fail (a.merge k))

/-- **A pattern matches** outside of tokens up to a place, with these pairs, and adds these
attempts. -/
def Passes (e : Pattern) (c d : Cursor) (ps : List Pair) (k : Attempts) : Prop :=
  ∀ a, Runs false e c a (.done d ps (a.merge k))

variable {e f : Pattern} {c c' d : Cursor} {ps qs : List Pair} {k k' : Attempts} {r : Expected}
  {g : Glyph} {cs : List Char}

theorem Fails.seq (h : Fails e c k) (f : Pattern) : Fails (.seq e f) c k := fun a => .seq_fail (h a)

theorem Passes.seq_fails (h : Passes e c d ps k) (h' : Fails f d.skip k') :
    Fails (.seq e f) c (k.merge k') := fun a => by
  rw [← Attempts.merge_assoc]
  exact .seq (h a) (h' _)

theorem Passes.seq (h : Passes e c d ps k) (h' : Passes f d.skip c' qs k') :
    Passes (.seq e f) c c' (ps ++ qs) (k.merge k') := fun a => by
  rw [← Attempts.merge_assoc]
  exact .seq (h a) (h' _)

/-- A first part without attempts adds none. -/
theorem Passes.seq_fails_of_nil (h : Passes e c d ps {}) (h' : Fails f d.skip k) :
    Fails (.seq e f) c k := by
  have := h.seq_fails h'
  rwa [Attempts.nil_merge] at this

theorem Passes.seq_of_nil (h : Passes e c d ps {}) (h' : Passes f d.skip c' qs k) :
    Passes (.seq e f) c c' (ps ++ qs) k := by
  have := h.seq h'
  rwa [Attempts.nil_merge] at this

theorem Passes.choice (h : Passes e c d ps k) (f : Pattern) : Passes (.choice e f) c d ps k :=
  fun a => .choice (h a)

theorem Fails.choice_passes (h : Fails e c k) (h' : Passes f c d ps k') :
    Passes (.choice e f) c d ps (k.merge k') := fun a => by
  rw [← Attempts.merge_assoc]
  exact .choice_else (h a) (h' _)

theorem Fails.choice (h : Fails e c k) (h' : Fails f c k') :
    Fails (.choice e f) c (k.merge k') := fun a => by
  rw [← Attempts.merge_assoc]
  exact .choice_else (h a) (h' _)

theorem Fails.again (h : Fails e c.skip k) : Passes (.again e) c c [] k := fun a =>
  .again_none (h a)

theorem Passes.again (h : Passes e c.skip d ps k) (h' : Passes (.again e) d c' qs k') :
    Passes (.again e) c c' (ps ++ qs) (k.merge k') := fun a => by
  rw [← Attempts.merge_assoc]
  exact .again (h a) (h' _)

/-- Where no blank stands, the first round of a repetition is like the others. -/
theorem Runs.star_of_again {m : Bool} {a : Attempts} {o : Result} (h : Runs m (.again e) c a o)
    (hc : c.next m = c) : Runs m (.star e) c a o := by
  cases h with
  | again h h' => exact .star (hc ▸ h) h'
  | again_none h => exact .star_none (hc ▸ h)

theorem Passes.star (h : Passes (.again e) c d ps k) (hc : c.IsSkipped) :
    Passes (.star e) c d ps k := fun a => (h a).star_of_again (Cursor.skip_of_isSkipped hc)

theorem Fails.call (hr : Pattern.isToken r = false) (h : Fails (Pattern.body r) c k) :
    Fails (.call r) c (k.collapse r c.pos) := fun a => by
  rw [← Attempts.track_merge]
  exact .call (hr ▸ h a)

/-- A rule keeps the attempts that got somewhere. -/
theorem Fails.call_of_lt (hr : Pattern.isToken r = false) (h : Fails (Pattern.body r) c k)
    (hk : c.pos < k.pos) : Fails (.call r) c k := by
  have := h.call hr
  rwa [Attempts.collapse_of_lt hk] at this

/-- A rule keeps a single attempt at its start. -/
theorem Fails.call_of_one (hr : Pattern.isToken r = false) {r' : Expected}
    (h : Fails (Pattern.body r) c ⟨c.pos, [r']⟩) : Fails (.call r) c ⟨c.pos, [r']⟩ := by
  have := h.call hr
  rwa [Attempts.collapse, if_pos (.inr ⟨rfl, rfl⟩)] at this

/-- A rule takes the place of several attempts at its start. -/
theorem Fails.call_of_several (hr : Pattern.isToken r = false) {rs : List Expected}
    (h : Fails (Pattern.body r) c ⟨c.pos, rs⟩) (hrs : rs.length ≠ 1) :
    Fails (.call r) c ⟨c.pos, [r]⟩ := by
  have := h.call hr
  rwa [Attempts.collapse_of_le (Nat.le_refl c.pos) hrs] at this

theorem Passes.call (hr : Pattern.isToken r = false) (h : Passes (Pattern.body r) c d ps k) :
    Passes (.call r) c d [.mk r (c.upTo d) ⟨c.pos, d.pos⟩ ps] k := fun a => .call (hr ▸ h a)

/-- A rule that fails without an attempt of another rule is an attempt itself. -/
theorem fails_of_runs (h : ∀ a, Runs (Pattern.isToken r) (Pattern.body r) c a (.fail a)) :
    Fails (.call r) c ⟨c.pos, [r]⟩ := fun a => by
  have htrack := Attempts.track_merge r c.pos a {}
  rw [Attempts.merge_nil, Attempts.collapse_of_le (Nat.zero_le _) (by simp)] at htrack
  rw [← htrack]
  exact .call (h a)

theorem passes_of_runs
    (h : ∀ a, Runs (Pattern.isToken r) (Pattern.body r) c a (.done d [] a)) :
    Passes (.call r) c d [.mk r (c.upTo d) ⟨c.pos, d.pos⟩ []] {} := fun a => by
  rw [Attempts.merge_nil]
  exact .call (h a)

theorem fails_glyph (h : c.rest.head? ≠ some g.char) :
    Fails (.glyph g) c ⟨c.pos, [.glyph g]⟩ :=
  fails_of_runs fun _ => .text_fail fun ⟨cs, hcs⟩ => h (by rw [← hcs]; rfl)

/-- The pair of a parenthesis or an operator. -/
def Pair.ofGlyph (g : Glyph) (n : ℕ) : Pair := .mk (.glyph g) [g.char] ⟨n, n + 1⟩ []

theorem passes_glyph (h : c.rest = g.char :: cs) :
    Passes (.glyph g) c ⟨c.pos + 1, cs⟩ [.ofGlyph g c.pos] {} := by
  have hlen : byteLength [g.char] = 1 := by
    rcases g with _ | _ | (_ | _ | _ | _) <;> rfl
  have htext : c.upTo ⟨c.pos + 1, cs⟩ = [g.char] := Cursor.upTo_of_append h _
  have := passes_of_runs (r := .glyph g) (c := c) (d := ⟨c.pos + 1, cs⟩) fun a => by
    rw [← hlen]
    exact .text h
  rwa [htext] at this

end OrderedChoice

end ArithLine

import ArithLine.Proofs.Grammar.Cover
import ArithLine.Proofs.Grammar.Occurrence
import ArithLine.Proofs.Grammar.Respelling

/-!
# Tokens that start elsewhere

Text that is put into a line moves the tokens after it.

* `Covers.move`: a text that stands elsewhere is covered by the moved tokens.
* `Derivation.move`: a derivation with all tokens moved. It is as valid, and its parse trees
  are the same up to spans.
* `Covers.cut`: where some tokens end and others start, the text comes apart, at either end of
  the blanks between them.
-/

namespace ArithLine

open Grammar Derivation

/-- A token that starts elsewhere. -/
def Token.move (g : ℕ → ℕ) (t : Token) : Token := ⟨t.lexeme, g t.start⟩

/-- A token that starts further on ends further on by as much. -/
theorem Token.stop_move {g : ℕ → ℕ} {t : Token} {k : ℕ} (h : g t.start = t.start + k) :
    (t.move g).stop = t.stop + k := by
  rw [Token.stop, Token.move, h, Nat.add_right_comm]
  rfl

namespace Covers

variable {n k : ℕ} {ts us : List Token} {cs : List Char}

/-- A text that stands `k` bytes further on. -/
theorem move (h : Covers n ts cs) {g : ℕ → ℕ} (hg : ∀ t ∈ ts, g t.start = t.start + k) :
    Covers (n + k) (ts.map (Token.move g)) cs := by
  induction h with
  | done n => exact .done _
  | blank hc _ ih => exact .blank hc (by simpa only [Nat.add_right_comm] using ih hg)
  | token hl _ ih =>
    obtain ⟨hstart, hrest⟩ := List.forall_mem_cons.1 hg
    rw [List.map_cons, Token.move, hstart]
    exact .token hl (by simpa only [Nat.add_right_comm] using ih hrest)

/-- Every token is in the text, and has characters. -/
theorem bounds (h : Covers n ts cs) :
    ∀ t ∈ ts, n ≤ t.start ∧ t.start < t.stop ∧ t.stop ≤ n + byteLength cs := by
  induction h with
  | done n => simp
  | @blank n c ts cs _ _ ih =>
    intro t ht
    have := ih t ht
    rw [byteLength_cons]
    omega
  | @token n l ts cs hl _ ih =>
    obtain ⟨c, r, hc, -⟩ := hl.chars_eq
    have hpos := c.utf8Size_pos
    have hlen : byteLength l.chars = c.utf8Size + byteLength r := by rw [hc, byteLength_cons]
    rw [byteLength_append]
    refine List.forall_mem_cons.2 ⟨?_, fun t ht => ?_⟩
    · simp only [Token.stop]
      omega
    · have := ih t ht
      omega

/-- **Where some tokens end and others start, the text comes apart**, at either end of the blanks
between them. -/
theorem cut (h : Covers n (ts ++ us) cs)
    (hk : k = nextStart us (n + byteLength cs) ∨ ∃ t ∈ ts.getLast?, k = t.stop) :
    ∃ before after, cs = before ++ after ∧ k = n + byteLength before ∧ Covers n ts before ∧
      Covers k us after := by
  rcases hk with rfl | ⟨t, ht, rfl⟩
  · cases us with
    | nil => exact ⟨cs, [], by simp, rfl, by simpa using h, .done _⟩
    | cons u us =>
      obtain ⟨before, after, rfl, hstart, hts, hprec, hus, -⟩ := h.split
      exact ⟨before, _, rfl, hstart, hts, .token hprec hus⟩
  · obtain ⟨ts, rfl⟩ := List.getLast?_eq_some_iff.1 ht
    rw [List.append_assoc, List.singleton_append] at h
    obtain ⟨before, after, rfl, hstart, hts, hprec, hus, hr⟩ := h.split
    refine ⟨before ++ t.lexeme.chars, after, by simp, ?_, ?_, hus⟩
    · rw [Token.stop, hstart, byteLength_append, Nat.add_assoc]
    · obtain ⟨c, r, hc, -⟩ := hprec.chars_eq
      have hlast : Covers (n + byteLength before) [t] t.lexeme.chars := by
        have hnil : t.lexeme.Precedes ([] ++ after) := hprec
        have htoken : Covers t.start [t] (t.lexeme.chars ++ []) :=
          .token hnil.of_append (.done _)
        rwa [List.append_nil, hstart] at htoken
      refine hts.append hlast fun h => hr ?_
      rw [hc] at h ⊢
      exact h

end Covers

namespace Grammar.Derivation

variable {g : ℕ → ℕ}

mutual

/-- A derivation with all tokens moved. -/
def move (g : ℕ → ℕ) : Derivation → Derivation
  | leaf k t => leaf k (t.move g)
  | node n ds => node n (moveAll g ds)

/-- Some derivations with all tokens moved. -/
def moveAll (g : ℕ → ℕ) : List Derivation → List Derivation
  | [] => []
  | d :: ds => d.move g :: moveAll g ds

end

theorem moveAll_eq (g : ℕ → ℕ) (ds : List Derivation) : moveAll g ds = ds.map (move g) := by
  induction ds with
  | nil => rfl
  | cons d ds ih => rw [moveAll, ih, List.map_cons]

@[simp] theorem symbol_move (g : ℕ → ℕ) (d : Derivation) : (d.move g).symbol = d.symbol := by
  cases d <;> rfl

theorem Valid.move {d : Derivation} (hd : d.Valid) (g : ℕ → ℕ) : (d.move g).Valid := by
  induction hd with
  | leaf admits => exact .leaf admits
  | @node n ds hw hv ih =>
    rw [Derivation.move, moveAll_eq]
    refine .node ?_ (List.forall_mem_map.2 ih)
    have hsymbols : (symbol ∘ Derivation.move g) = symbol := funext (symbol_move g)
    rwa [List.map_map, hsymbols]

mutual

/-- The tokens of a moved derivation. -/
theorem yield_move (g : ℕ → ℕ) : ∀ d : Derivation, (d.move g).yield = d.yield.map (Token.move g)
  | leaf _ _ => rfl
  | node _ ds => yieldAll_move g ds

/-- The tokens of some moved derivations. -/
theorem yieldAll_move (g : ℕ → ℕ) : ∀ ds : List Derivation,
    yieldAll (moveAll g ds) = (yieldAll ds).map (Token.move g)
  | [] => rfl
  | d :: ds => by
    rw [moveAll, yieldAll, yieldAll, List.map_append, yield_move g d, yieldAll_move g ds]

end

mutual

/-- The parse trees of a moved derivation are the same, up to spans. -/
theorem bare_move (g : ℕ → ℕ) (line : List Char) : ∀ d : Derivation,
    ((d.move g).lower line).map Tree.bare = (d.lower line).map Tree.bare
  | leaf k t => by
    have htext : (t.move g).text = t.text := rfl
    by_cases hk : k = .unknown <;> simp [move, lower, hk, htext, Tree.bare, Token.leaf]
  | node (.layer _) ds => bare_moveAll g line ds
  | node (.rule _) ds => by
    simp only [move, lower, List.map_singleton, Tree.bare, Tree.bareAll_eq, bare_moveAll g line ds]

/-- The parse trees of some moved derivations are the same, up to spans. -/
theorem bare_moveAll (g : ℕ → ℕ) (line : List Char) : ∀ ds : List Derivation,
    (lowerAll line (moveAll g ds)).map Tree.bare = (lowerAll line ds).map Tree.bare
  | [] => rfl
  | d :: ds => by
    rw [moveAll, lowerAll, lowerAll, List.map_append, List.map_append, bare_move g line d,
      bare_moveAll g line ds]

end

namespace Context

/-- A derivation with a hole, with all tokens moved. -/
def move (g : ℕ → ℕ) : Context → Context
  | hole => hole
  | node n es c fs => node n (moveAll g es) (c.move g) (moveAll g fs)

theorem move_fill (g : ℕ → ℕ) (c : Context) (d : Derivation) :
    (c.fill d).move g = (c.move g).fill (d.move g) := by
  induction c with
  | hole => rfl
  | node n es c fs ih => simp [fill, move, Derivation.move, moveAll_eq, ih]

theorem before_move (g : ℕ → ℕ) (c : Context) :
    (c.move g).before = c.before.map (Token.move g) := by
  induction c with
  | hole => rfl
  | node n es c fs ih => simp [before, move, ih, yieldAll_move]

theorem after_move (g : ℕ → ℕ) (c : Context) :
    (c.move g).after = c.after.map (Token.move g) := by
  induction c with
  | hole => rfl
  | node n es c fs ih => simp [after, move, ih, yieldAll_move]

end Context

end Grammar.Derivation

end ArithLine

import ArithLine.Proofs.Grammar.Completeness
import ArithLine.Proofs.Grammar.Completion

/-!
# What the reader expects

Each state of the reader has its own list of what may come next (`Unfinished.expected`).

* `Expected.symbol?`: what an item of the list stands for in the grammar.
* `Unfinished.Reads.allows`: whatever is listed, glyphs apart, can stand after what has been
  read, and a program can be made around it.
* `Unfinished.Reads.exists_step`: whatever glyph is listed is taken in.
* `Unfinished.Reads.exists_expected`: whatever token is taken in is the start of something
  listed, if its kind is one that the grammar has there. A numeral may be signed or not, so
  it is asked that any other is taken in as well.
-/

namespace ArithLine

open Grammar Derivation

/-- What an expected item stands for in the grammar. The end of a line stands for nothing. -/
def Expected.symbol? : Expected → Option Symbol
  | endOfInput => none
  | form r => some (.rule r)
  | numeral => some (.terminal .numeral)
  | name => some (.terminal .name)
  | reserved => some (.terminal .reserved)
  | glyph g => some (.glyph g)
  | unknown => some (.terminal .unknown)

namespace Grammar.Derivation

/-- Whether a derivation starts with another. -/
inductive Starts (e : Derivation) : Derivation → Prop
  | here : Starts e e
  | first {n : Nonterminal} {d : Derivation} {ds : List Derivation} (h : Starts e d) :
    Starts e (node n (d :: ds))

end Grammar.Derivation

/-- Parentheses around an operand. -/
def groupLexemes : List Lexeme := [.glyph .opening, placeholder, .glyph .closing]

theorem spelled_group : Spelled [.layer .atom] groupLexemes :=
  .node (mem_body_atom.2 (.inr (.inr (.inr (.inl rfl)))))
    (.glyph _ (.append spelled_expr (.glyph _ .nil)))

theorem spelled_group_expr : Spelled [.rule .expr] groupLexemes :=
  .node (mem_layer.2 rfl) (.node (mem_body_sum.2 (.inr rfl))
    (.node (mem_body_product.2 (.inr rfl)) spelled_group))

/-- A product of two operands. -/
theorem spelled_chain {o : Op} (ho : o.isTight) :
    Spelled [.rule (.chain o)] (groupLexemes ++ [.glyph (.op o), placeholder]) := by
  have hword : [.layer .atom, .glyph (.op o), .layer .atom] ∈ (body (.rule (.chain o))).matches' := by
    refine mem_body_chain.2 ⟨0, ?_⟩
    simp [linkWord, operand, ho]
  exact .node hword (.append spelled_group (.glyph _ spelled_atom))

namespace Unfinished

variable {line : List Char} {u v : Unfinished} {vs : List Token} {x : Expected} {s : Symbol}

/-- Whether the reader is where only a glyph can have led, so that no word ends there. -/
def FollowsGlyph : Unfinished → Prop
  | opened .. | name .. => True
  | operand _ l => l.isFresh = false
  | _ => False

theorem FollowsGlyph.exists_glyph_of_stepOperand {stack : List Frame} {l : Level} {t : Token}
    (hv : v.FollowsGlyph) (h : stepOperand stack l t = some v) : ∃ g, t.lexeme = .glyph g := by
  obtain ⟨g | w | ds, n⟩ := t
  · exact ⟨g, rfl⟩
  · cases h
    cases hv
  · cases h
    cases hv

theorem FollowsGlyph.exists_glyph_of_stepEnded {stack : List Frame} {l : Level} {os : List Tree}
    {t : Token} (hv : v.FollowsGlyph) (h : stepEnded stack l os t = some v) :
    ∃ g, t.lexeme = .glyph g := by
  obtain ⟨g | w | ds, n⟩ := t
  · exact ⟨g, rfl⟩
  · cases h
  · obtain ⟨l', -, rfl⟩ := Option.map_eq_some_iff.1 h
    cases hv

/-- **Only a glyph leads to where no word ends.** -/
theorem FollowsGlyph.exists_glyph {t : Token} (hv : v.FollowsGlyph) (h : u.step t = some v) :
    ∃ g, t.lexeme = .glyph g := by
  cases u with
  | opened stack l o =>
    rw [step] at h
    split at h
    · cases h
      cases hv
    · exact hv.exists_glyph_of_stepOperand h
  | operand stack l => exact hv.exists_glyph_of_stepOperand h
  | ended stack l os => exact hv.exists_glyph_of_stepEnded h
  | reserved stack l o r =>
    rw [step] at h
    split at h
    · next hopening => exact ⟨_, hopening⟩
    · exact hv.exists_glyph_of_stepEnded h
  | bindings stack f b =>
    obtain ⟨g | w | ds, n⟩ := t
    · exact ⟨g, rfl⟩
    · cases b <;> cases h
    · cases b <;> cases h
  | name stack f =>
    obtain ⟨g | w | ds, n⟩ := t
    · exact ⟨g, rfl⟩
    · simp only [step] at h
      split at h
      · cases h
        cases hv
      · cases h
    · cases h

theorem glyph_of_mem_expectedEnded {s : List Frame} {l : Level} (h : x ∈ expectedEnded s l) :
    x = .endOfInput ∨ ∃ g, x = .glyph g := by
  rcases List.mem_cons.1 h with rfl | h
  · split
    · exact .inl rfl
    · exact .inr ⟨_, rfl⟩
  · obtain ⟨o, -, rfl⟩ := List.mem_map.1 h
    exact .inr ⟨_, rfl⟩

/-- Whether a derivation of a symbol can stand after what has been read. It starts with a glyph
unless a glyph comes before it. -/
def Allows (v : Unfinished) (vs : List Token) (s : Symbol) : Prop :=
  ∃ l ls, Completable s vs ∧ Spelled [s] (l :: ls) ∧ Free (l :: ls) ∧
    ((∃ g, l = .glyph g) ∨ v.FollowsGlyph)

theorem allows_word {k : Terminal} (w : List Char) (h : Completable (.terminal k) vs)
    (hk : k.Admits (.word w)) (hw : w ≠ [] ∧ w.all isWordChar) (hv : v.FollowsGlyph) :
    v.Allows vs (.terminal k) :=
  ⟨_, [], h, .token hk, by simpa [Free] using isFree_word hw.1 hw.2, .inr hv⟩

theorem free_group : Free groupLexemes := by
  simp [Free, groupLexemes, isFree_glyph, isFree_placeholder]

/-- What is listed after an operator: an operand, and a product where none is open. -/
theorem allows_later {stack : List Frame} {l : Level} {ts us : List Token}
    (hstack : StackReads line stack ts) (hl : LevelReads line l us) (hfresh : l.isFresh = false)
    (hx : x ∈ (operand stack l).expected) (hs : x.symbol? = some s) (hg : ∀ g, x ≠ .glyph g) :
    (operand stack l).Allows (ts ++ us) s := by
  have hterminal : ∀ {k : Terminal}, Completes (.terminal k) (.layer .atom) [] [] →
      Completable (.terminal k) (ts ++ us) := by
    intro k hk
    have hword := (hstack.completable.atom hl).of_completes hk (by simp [Free])
    rwa [List.append_nil] at hword
  simp only [expected, hfresh, Bool.false_eq_true, if_false, List.mem_append, List.mem_cons,
    List.not_mem_nil, or_false] at hx
  rcases hx with hx | rfl | rfl | rfl | rfl
  · split at hx
    · next hp =>
      obtain ⟨o, ho, rfl⟩ : ∃ o : Op, o.isTight ∧ x = .form (.chain o) := by
        simp only [List.mem_cons, List.not_mem_nil, or_false] at hx
        rcases hx with rfl | rfl
        · exact ⟨.mul, rfl, rfl⟩
        · exact ⟨.div, rfl, rfl⟩
      obtain rfl := Option.some.inj hs
      have hproduct := hl.completes_product (Option.isNone_iff_eq_none.1 hp)
      have hchain : Completes (.rule (.chain o)) (.layer .product) [] [] :=
        .one (mem_body_product.2 (.inl ⟨o, ho, rfl⟩))
      have hrule := hstack.completable.of_completes (hchain.trans hproduct) (by simp [Free])
      rw [List.append_nil] at hrule
      have hfree : Free (groupLexemes ++ [.glyph (.op o), placeholder]) :=
        List.forall_mem_append.2 ⟨free_group, by simp [isFree_glyph, isFree_placeholder]⟩
      exact ⟨_, _, hrule, spelled_chain ho, hfree, .inl ⟨_, rfl⟩⟩
    · cases hx
  · obtain rfl := Option.some.inj hs
    exact allows_word ['0'] (hterminal completes_numeral)
      (show Word.isNumeral ['0'] = true by decide) (by decide) hfresh
  · obtain rfl := Option.some.inj hs
    exact allows_word ['x'] (hterminal completes_var)
      (show Word.isName ['x'] = true by decide) (by decide) hfresh
  · exact absurd rfl (hg _)
  · obtain rfl := Option.some.inj hs
    exact allows_word ['$'] (hterminal completes_unknown)
      (show ¬ Word.isNumeral ['$'] = true ∧ ¬ Word.isName ['$'] = true by decide) (by decide) hfresh

/-- **What is listed can stand after what has been read.** -/
theorem Reads.allows (h : v.Reads line vs) (hx : x ∈ v.expected) (hs : x.symbol? = some s)
    (hg : ∀ g, x ≠ .glyph g) : v.Allows vs s := by
  cases h with
  | opened hstack =>
    simp only [expected, List.mem_cons, List.not_mem_nil, or_false] at hx
    rcases hx with rfl | rfl
    · obtain rfl := Option.some.inj hs
      exact ⟨_, _, hstack.completable, spelled_group_expr, free_group, .inl ⟨_, rfl⟩⟩
    · obtain rfl := Option.some.inj hs
      exact allows_word Word.reserved hstack.completable_reserved rfl (by decide) trivial
  | @operand stack l ts us hstack hl =>
    by_cases hfresh : l.isFresh
    · simp only [expected, hfresh, if_true, List.mem_singleton] at hx
      subst hx
      obtain rfl := Option.some.inj hs
      obtain rfl := hl.eq_nil hfresh
      rw [List.append_nil]
      exact ⟨_, _, hstack.completable, spelled_group_expr, free_group, .inl ⟨_, rfl⟩⟩
    · exact allows_later hstack hl (by simpa using hfresh) hx hs hg
  | ended hstack hl ha =>
    rcases glyph_of_mem_expectedEnded hx with rfl | ⟨g, rfl⟩
    · cases hs
    · exact absurd rfl (hg g)
  | reserved n hstack =>
    rcases List.mem_cons.1 hx with rfl | hx
    · exact absurd rfl (hg _)
    · rcases glyph_of_mem_expectedEnded hx with rfl | ⟨g, rfl⟩
      · cases hs
      · exact absurd rfl (hg g)
  | bindings hstack hf hb =>
    simp only [expected, List.mem_cons] at hx
    rcases hx with rfl | hx
    · exact absurd rfl (hg _)
    · split at hx
      · obtain rfl := List.mem_singleton.1 hx
        exact absurd rfl (hg _)
      · cases hx
  | name m hstack hf =>
    obtain rfl := List.mem_singleton.1 hx
    obtain rfl := Option.some.inj hs
    have hname := (hstack.completable.binding hf).of_completes (completes_name m)
      (by simp [Free, isFree_glyph, isFree_placeholder])
    exact allows_word ['x'] hname (show Word.isName ['x'] = true by decide) (by decide) trivial

end Unfinished

/-! ## Listed glyphs -/

theorem OpenChain.exists_extend?_iff {c : Option OpenChain} {o : Op} (os : List Tree) (t : Tree) :
    (∃ d, extend? c os o t = some d) ↔ ∀ d ∈ c, d.op = o := by
  cases c with
  | none => simp [extend?]
  | some c => simp [extend?]

/-- The operators of a chain of some kind that is open, or of any such chain if none is. -/
theorem ChainReads.mem_operators_iff {line : List Char} {tight : Bool} {c : Option OpenChain}
    {ds : List Derivation} (h : ChainReads line tight c ds) {all : List Op}
    (hall : ∀ o : Op, o ∈ all ↔ o.isTight = tight) (o : Op) :
    (o ∈ match c with | none => all | some c => [c.op]) ↔
      o.isTight = tight ∧ ∀ d ∈ c, d.op = o := by
  cases c with
  | none => simpa using hall o
  | some c =>
    obtain ⟨hc, -⟩ := h
    simp only [List.mem_singleton, Option.mem_some_iff, forall_eq']
    constructor
    · rintro rfl
      exact ⟨hc, rfl⟩
    · rintro ⟨-, rfl⟩
      rfl

/-- The operators that are listed after an operand are those that a level takes in. -/
theorem LevelReads.mem_operators_iff {line : List Char} {l : Level} {ts : List Token}
    (h : LevelReads line l ts) (o : Op) (os : List Tree) (t : Token) :
    o ∈ l.operators ↔ ∃ l', l.operator? os o t = some l' := by
  obtain ⟨ss, ps, hss, hps, -⟩ := h
  have hloose : ∀ p : Op, p ∈ [Op.add, .sub] ↔ p.isTight = false := by
    rintro (_ | _ | _ | _) <;> decide
  have htight : ∀ p : Op, p ∈ [Op.mul, .div] ↔ p.isTight = true := by
    rintro (_ | _ | _ | _) <;> decide
  have hsum := hss.mem_operators_iff hloose o
  have hproduct := hps.mem_operators_iff htight o
  refine (List.mem_append.trans (or_congr hsum hproduct)).trans ?_
  rw [Level.operator?]
  by_cases ho : o.isTight
  · simpa [ho] using (OpenChain.exists_extend?_iff os t.leaf).symm
  · simpa [ho] using (OpenChain.exists_extend?_iff (l.closeProduct os t.start) t.leaf).symm

namespace Unfinished

variable {line : List Char} {u v w : Unfinished} {vs : List Token}

theorem exists_stepEnded_iff {s : List Frame} {l : Level} {ts : List Token}
    (hl : LevelReads line l ts) (os : List Tree) (g : Glyph) (n : ℕ) :
    .glyph g ∈ expectedEnded s l ↔ ∃ w, stepEnded s l os ⟨.glyph g, n⟩ = some w := by
  cases g with
  | opening => cases s <;> simp [expectedEnded, stepEnded]
  | closing =>
    cases s with
    | nil => simp [expectedEnded, stepEnded, stepClosing]
    | cons f s => cases f <;> simp [expectedEnded, stepEnded, stepClosing]
  | op o =>
    have hop := hl.mem_operators_iff o os ⟨.glyph (.op o), n⟩
    cases s <;> simpa [expectedEnded, stepEnded] using hop

/-- **A glyph that is listed is taken in.** -/
theorem Reads.exists_step (h : v.Reads line vs) {g : Glyph} (hg : .glyph g ∈ v.expected) (n : ℕ) :
    ∃ w, v.step ⟨.glyph g, n⟩ = some w := by
  cases h with
  | opened hs => simp [expected] at hg
  | @operand s l ts us hs hl =>
    by_cases hfresh : l.isFresh
    · simp [expected, hfresh] at hg
    · obtain rfl : g = .opening := by
        simp only [expected, if_neg hfresh] at hg
        split at hg
        · simpa using hg
        · simpa using hg
      exact ⟨_, rfl⟩
  | ended hs hl ha => exact (exists_stepEnded_iff hl _ g n).1 hg
  | @reserved s l o ts m hs =>
    by_cases hopening : g = .opening
    · subst hopening
      exact ⟨_, rfl⟩
    · have hg : .glyph g ∈ expectedEnded (.group l o :: s) {} := by
        simpa [expected, hopening] using hg
      have hstep := (exists_stepEnded_iff (levelReads_fresh : LevelReads line {} [])
        [Token.operand ⟨.word Word.reserved, m⟩] g n).1 hg
      simpa [step, hopening] using hstep
  | @bindings s f b bs ts us hs hf hb =>
    cases b
    · obtain rfl : g = .opening := by simpa [expected] using hg
      exact ⟨_, rfl⟩
    · obtain rfl | rfl : g = .opening ∨ g = .closing := by simpa [expected] using hg
      · exact ⟨_, rfl⟩
      · exact ⟨_, rfl⟩
  | name m hs hf => simp [expected] at hg

/-- The end of a line is listed just where a line may end. -/
theorem endOfInput_mem_iff (v : Unfinished) (n : ℕ) :
    .endOfInput ∈ v.expected ↔ ∃ t, v.finish? n = some t := by
  cases v with
  | opened s l o => simp [expected, finish?]
  | operand s l =>
    simp only [expected, finish?]
    split
    · simp
    · split <;> simp
  | ended s l os => cases s <;> simp [expected, expectedEnded, finish?]
  | reserved s l o t => simp [expected, expectedEnded, finish?]
  | bindings s f b => cases b <;> simp [expected, finish?]
  | name s f => simp [expected, finish?]

variable {k : Terminal} {t : Token}

theorem eq_of_admits_glyph {g : Glyph} (h : k.Admits (.glyph g)) : k = .glyph g := by
  cases k with
  | glyph g' =>
    obtain rfl : g' = g := h
    rfl
  | _ => cases h

end Unfinished

end ArithLine

import ArithLine.Proofs.Recursion
import Mathlib.Algebra.BigOperators.Group.List.Basic
import Mathlib.Algebra.Ring.Int.Defs
import Mathlib.Data.List.MinMax

/-!
# Only open parentheses make a tree high

A chain of any length is one node, so a tree is as high as the parentheses of its line are nested,
and not as the line is long.

* `nesting`: the greatest number of parentheses open at once in a text.
* `NestsWithin`: some tokens that never open more than so many parentheses at once.
* `Symbol.room`: how high the trees of a symbol may be, beyond four nodes for each parenthesis that
  its tokens have open at once. A symbol in parentheses has fewer of its own to open, so there is
  room there for four nodes more (`Fits`).
* `Symbol.surplus`: how many more inner nodes than leaves the trees of a symbol may have.
* `keeps_of_mem_body`: the words of each rule keep its two bounds.
* `Derivation.Valid.height_le`, `Derivation.Valid.length_nodes_le`: so the trees of a derivation do,
  by one induction for each.
* `Source.recursion_bounded`: the bounds for the tree of a source.
-/

namespace ArithLine

open Grammar Derivation

/-! ## Open parentheses -/

/-- How many parentheses are open after a text. -/
def openParens (cs : List Char) : ℕ := cs.count '(' - cs.count ')'

/-- The greatest number of parentheses open at once in a text. -/
def nesting (cs : List Char) : ℕ := (cs.inits.map openParens).foldr max 0

theorem openParens_le_nesting {as cs : List Char} (h : as <+: cs) :
    openParens as ≤ nesting cs :=
  List.le_max_of_le' 0 (List.mem_map_of_mem ((List.mem_inits _ _).2 h)) le_rfl

/-- How many more parentheses are open after a glyph than before it. -/
def Glyph.balance : Glyph → ℤ
  | opening => 1
  | closing => -1
  | op _ => 0

/-- How many more parentheses are open after a lexeme than before it. -/
def Lexeme.balance : Lexeme → ℤ
  | glyph g => g.balance
  | word _ | signed _ => 0

/-- How many more parentheses are open after some tokens than before them. -/
def balance (ts : List Token) : ℤ := (ts.map (·.lexeme.balance)).sum

@[simp] theorem balance_append (ts us : List Token) :
    balance (ts ++ us) = balance ts + balance us := by
  simp [balance]

/-- Whether some tokens never open more than `n` parentheses at once. -/
def NestsWithin (n : ℤ) (ts : List Token) : Prop := ∀ us, us <+: ts → balance us ≤ n

namespace NestsWithin

variable {n : ℤ} {ts us : List Token}

theorem nonneg (h : NestsWithin n ts) : 0 ≤ n := h [] (List.nil_prefix)

theorem left (h : NestsWithin n (ts ++ us)) : NestsWithin n ts :=
  fun vs hvs => h vs (hvs.trans (List.prefix_append ts us))

/-- Parentheses that are open before some tokens leave fewer for them. -/
theorem right (h : NestsWithin n (ts ++ us)) : NestsWithin (n - balance ts) us := by
  intro vs hvs
  have := h (ts ++ vs) ((List.prefix_append_right_inj ts).2 hvs)
  rw [balance_append] at this
  omega

end NestsWithin

/-- A lexeme has the parentheses that it opens or closes. -/
theorem Lexeme.Precedes.balance_eq {l : Lexeme} {rest : List Char} (h : l.Precedes rest) :
    (l.chars.count '(' : ℤ) - l.chars.count ')' = l.balance := by
  have hword : ∀ w : List Char, w.all isWordChar → w.count '(' = 0 ∧ w.count ')' = 0 := by
    intro w hw
    rw [List.all_eq_true] at hw
    exact ⟨List.count_eq_zero.2 fun hmem => absurd (hw _ hmem) (by decide),
      List.count_eq_zero.2 fun hmem => absurd (hw _ hmem) (by decide)⟩
  match l, h with
  | .glyph g, _ => rcases g with _ | _ | (_ | _ | _ | _) <;> rfl
  | .word w, ⟨_, hall, _⟩ => simp [Lexeme.chars, Lexeme.balance, hword w hall]
  | .signed ds, ⟨hds, _⟩ =>
    have hall := (isWordChar_of_isNumeral hds).2
    simp [Lexeme.chars, Lexeme.balance, hword ds hall]

namespace Covers

variable {n : ℕ} {ts : List Token} {cs : List Char}

/-- Tokens open as many parentheses as the text that they cover. -/
theorem balance_eq (h : Covers n ts cs) : (cs.count '(' : ℤ) - cs.count ')' = balance ts := by
  induction h with
  | done n => rfl
  | @blank n c ts cs hc _ ih =>
    have hne : c ≠ '(' ∧ c ≠ ')' := by
      constructor <;> rintro rfl <;> cases hc
    rw [List.count_cons_of_ne hne.1, List.count_cons_of_ne hne.2, ih]
  | @token n l ts cs hl _ ih =>
    have hlexeme := hl.balance_eq
    rw [balance] at ih
    simp only [List.count_append, balance, List.map_cons, List.sum_cons]
    omega

/-- **The tokens of a text never open more parentheses than the text.** -/
theorem nestsWithin (h : Covers n ts cs) : NestsWithin (nesting cs) ts := by
  rintro us ⟨vs, rfl⟩
  obtain ⟨as, hprefix, has⟩ : ∃ as, as <+: cs ∧ Covers n us as := by
    -- the tokens before another one cover the text before it
    cases vs with
    | nil => exact ⟨cs, List.prefix_rfl, by rwa [List.append_nil] at h⟩
    | cons v vs =>
      obtain ⟨before, after, rfl, -, hbefore, -⟩ := h.split
      exact ⟨before, List.prefix_append _ _, hbefore⟩
  have hbalance := has.balance_eq
  have hopen := openParens_le_nesting hprefix
  rw [openParens] at hopen
  omega

end Covers

/-! ## Rules -/

namespace Grammar

/-- How many more parentheses are open after the tokens of a symbol than before them. -/
def Symbol.balance : Symbol → ℤ
  | .terminal (.glyph g) => g.balance
  | _ => 0

/-- How high the trees of a symbol may be, beyond four nodes for each parenthesis that its tokens
have open at once. -/
def Symbol.room : Symbol → ℤ
  | .terminal _ | .nonterminal (.layer .binding) => 1
  | .nonterminal (.rule .numeral) | .nonterminal (.rule .var) | .nonterminal (.rule .letForm)
  | .nonterminal (.layer .atom) => 2
  | .nonterminal (.rule (.chain o)) => if o.isTight then 3 else 4
  | .nonterminal (.layer .product) => 3
  | .nonterminal (.layer .sum) => 4
  | .nonterminal (.rule .expr) => 5
  | .nonterminal (.rule .program) => 6

/-- How many more inner nodes than leaves the trees of a symbol may have. -/
def Symbol.surplus : Symbol → ℤ
  | .terminal _ => -1
  | .nonterminal (.rule .expr) => 1
  | .nonterminal (.rule .program) => 2
  | .nonterminal _ => 0

/-- How many nodes are added to those of the parts. -/
def Nonterminal.own : Nonterminal → ℤ
  | .rule _ => 1
  | .layer _ => 0

/-- Whether each symbol of a word has room where `n` parentheses are open before the word, and the
word closes these. -/
def Fits (room : ℤ) : ℤ → List Symbol → Prop
  | n, [] => n = 0
  | n, s :: w => s.room ≤ 4 * n + room ∧ Fits room (n + s.balance) w

instance decidableFits (room : ℤ) : ∀ (n : ℤ) (w : List Symbol), Decidable (Fits room n w)
  | n, [] => inferInstanceAs (Decidable (n = 0))
  | n, s :: w =>
    have := decidableFits room (n + s.balance) w
    inferInstanceAs (Decidable (s.room ≤ 4 * n + room ∧ Fits room (n + s.balance) w))

/-- Whether a word keeps the bounds of a rule. -/
structure Keeps (n : Nonterminal) (w : List Symbol) : Prop where
  fits : Fits ((Symbol.nonterminal n).room - n.own) 0 w
  surplus : (w.map Symbol.surplus).sum + n.own ≤ (Symbol.nonterminal n).surplus

section Words

variable {room n : ℤ} {s : Symbol} {w : List Symbol}

/-- A symbol that opens nothing and closes nothing may stand before a word that fits. -/
theorem Fits.cons (hs : s.room ≤ 4 * n + room) (hbalance : s.balance = 0) (h : Fits room n w) :
    Fits room n (s :: w) := by
  refine ⟨hs, ?_⟩
  rw [hbalance, Int.add_zero]
  exact h

theorem Fits.replicate (hs : s.room ≤ 4 * n + room) (hbalance : s.balance = 0)
    (h : Fits room n w) (k : ℕ) : Fits room n (List.replicate k s ++ w) := by
  induction k with
  | zero => exact h
  | succ k ih => exact ih.cons hs hbalance

theorem Fits.balance_eq (h : Fits room n w) : n + (w.map Symbol.balance).sum = 0 := by
  induction w generalizing n with
  | nil => simpa [Fits] using h
  | cons s w ih =>
    have hrest := ih h.2
    rw [List.map_cons, List.sum_cons]
    omega

end Words

/-- A chain has room for operators and operands. -/
theorem room_link (o : Op) :
    (Symbol.glyph (.op o)).room ≤ (Symbol.rule (.chain o)).room - 1 ∧
      (Symbol.layer (operand o)).room ≤ (Symbol.rule (.chain o)).room - 1 := by
  cases o <;> decide

theorem fits_linkWord (o : Op) (k : ℕ) :
    Fits ((Symbol.rule (.chain o)).room - 1) 0 (linkWord o k) := by
  induction k with
  | zero => exact rfl
  | succ k ih =>
    obtain ⟨hop, hoperand⟩ := room_link o
    exact .cons (by omega) rfl (.cons (by omega) rfl ih)

/-- Every operator is a leaf with no node of its own. -/
theorem surplus_linkWord (o : Op) (k : ℕ) :
    ((linkWord o k).map Symbol.surplus).sum = -k := by
  induction k with
  | zero => rfl
  | succ k ih =>
    rw [linkWord_succ, List.map_cons, List.map_cons, List.sum_cons, List.sum_cons, ih]
    simp only [Symbol.surplus]
    omega

theorem keeps_chain (o : Op) (k : ℕ) :
    Keeps (.rule (.chain o)) (.layer (operand o) :: linkWord o (k + 1)) := by
  constructor
  · have hoperand := (room_link o).2
    have hfits : Fits ((Symbol.rule (.chain o)).room - 1) 0
        (.layer (operand o) :: linkWord o (k + 1)) :=
      .cons (by omega) rfl (fits_linkWord o (k + 1))
    exact hfits
  · rw [List.map_cons, List.sum_cons, surplus_linkWord]
    simp only [Symbol.surplus, Nonterminal.own]
    omega

theorem keeps_letForm (k : ℕ) : Keeps (.rule .letForm) (letWord k) := by
  constructor
  · -- two parentheses are open before the bindings, and each binding closes its own
    have hbindings : Fits 1 2 (List.replicate k (.layer .binding) ++
        [.glyph .closing, .rule .expr, .glyph .closing]) :=
      .replicate (by decide) rfl (by decide) k
    exact ⟨by decide, by decide, by decide, hbindings⟩
  · simp [letWord, Symbol.surplus, Nonterminal.own]

/-- **The words of a rule keep its bounds.** -/
theorem keeps_of_mem_body {n : Nonterminal} {w : List Symbol} (h : w ∈ (body n).matches') :
    Keeps n w := by
  cases n with
  | rule r =>
    cases r with
    | program =>
      obtain rfl := mem_rule.1 h
      exact ⟨by decide, by decide⟩
    | expr =>
      obtain rfl := mem_layer.1 h
      exact ⟨by decide, by decide⟩
    | var | numeral =>
      obtain rfl := mem_token.1 h
      exact ⟨by decide, by decide⟩
    | chain o =>
      obtain ⟨k, rfl⟩ := mem_body_chain.1 h
      exact keeps_chain o k
    | letForm =>
      obtain ⟨k, rfl⟩ := mem_body_letForm.1 h
      exact keeps_letForm (k + 1)
  | layer l =>
    cases l with
    | sum =>
      rcases mem_body_sum.1 h with ⟨o, -, rfl⟩ | rfl
      · cases o <;> exact ⟨by decide, by decide⟩
      · exact ⟨by decide, by decide⟩
    | product =>
      rcases mem_body_product.1 h with ⟨o, ho, rfl⟩ | rfl
      · cases o <;> first | exact ⟨by decide, by decide⟩ | cases ho
      · exact ⟨by decide, by decide⟩
    | atom =>
      rcases mem_body_atom.1 h with rfl | rfl | rfl | rfl | rfl <;> exact ⟨by decide, by decide⟩
    | binding =>
      obtain rfl := mem_body_binding.1 h
      exact ⟨by decide, by decide⟩

theorem own_le_room (n : Nonterminal) : n.own ≤ (Symbol.nonterminal n).room := by
  rcases n with (_ | _ | _ | _ | (_ | _ | _ | _) | _) | (_ | _ | _ | _) <;> decide

/-! ## Derivations -/

namespace Derivation

variable {line : List Char} {d : Derivation} {ds : List Derivation}

theorem balance_of_admits {k : Terminal} {l : Lexeme} (h : k.Admits l) :
    l.balance = (Symbol.terminal k).balance := by
  match k, l, h with
  | .glyph g, .glyph g', h => exact congrArg Glyph.balance (show g = g' from h).symm
  | .numeral, .word _, _ | .numeral, .signed _, _ | .name, .word _, _ | .reserved, .word _, _
  | .unknown, .word _, _ => rfl

theorem balance_yieldAll (h : ∀ d ∈ ds, balance d.yield = d.symbol.balance) :
    balance (yieldAll ds) = ((ds.map symbol).map Symbol.balance).sum := by
  induction ds with
  | nil => rfl
  | cons d ds ih =>
    obtain ⟨hd, hds⟩ := List.forall_mem_cons.1 h
    rw [yieldAll, balance_append, hd, ih hds, List.map_cons, List.map_cons, List.sum_cons]

/-- **What a rule opens it closes.** -/
theorem Valid.balance_yield (hd : d.Valid) : balance d.yield = d.symbol.balance := by
  induction hd with
  | leaf admits =>
    rw [yield, balance, List.map_singleton, List.sum_singleton]
    exact balance_of_admits admits
  | @node n ds hw _ ih =>
    have hclosed := (keeps_of_mem_body hw).fits.balance_eq
    rw [Int.zero_add] at hclosed
    rw [yield, balance_yieldAll ih, hclosed]
    rfl

/-- The parts of a word are no higher than its room, where `m` of the `n` parentheses are open
before them. -/
theorem heightAll_lowerAll_le {room m n : ℤ} (hroom : 0 ≤ room)
    (hfits : Fits room m (ds.map symbol)) (hn : NestsWithin (n - m) (yieldAll ds))
    (hv : ∀ d ∈ ds, d.Valid)
    (hds : ∀ d ∈ ds, ∀ k, NestsWithin k d.yield →
      (Tree.heightAll (d.lower line) : ℤ) ≤ 4 * k + d.symbol.room) :
    (Tree.heightAll (lowerAll line ds) : ℤ) ≤ 4 * n + room := by
  induction ds generalizing m with
  | nil =>
    obtain rfl : m = 0 := hfits
    have hpos := hn.nonneg
    simp only [lowerAll, Tree.heightAll]
    omega
  | cons d ds ih =>
    obtain ⟨hsymbol, hfits⟩ := hfits
    obtain ⟨hd, hds⟩ := List.forall_mem_cons.1 hds
    have hfirst := hd (n - m) hn.left
    -- after `d` as many parentheses are open as its symbol says, which is what `hfits` counts
    have hrest := hn.right
    rw [(hv d List.mem_cons_self).balance_yield, Int.sub_sub] at hrest
    have hlater := ih hfits hrest (fun e he => hv e (List.mem_cons_of_mem d he)) hds
    rw [lowerAll, Tree.heightAll_append]
    omega

/-- **The trees of a symbol are no higher than four nodes for each parenthesis that is open at once,
and its room.** -/
theorem Valid.height_le (line : List Char) (hd : d.Valid) {n : ℤ} (hn : NestsWithin n d.yield) :
    (Tree.heightAll (d.lower line) : ℤ) ≤ 4 * n + d.symbol.room := by
  induction hd generalizing n with
  | @leaf k t _ =>
    have hheight : Tree.heightAll (Derivation.lower line (.leaf k t)) = 1 := by
      rw [lower]
      split <;> rfl
    have hpos := hn.nonneg
    rw [hheight, symbol, Symbol.room]
    omega
  | @node r ds hw hv ih =>
    have hparts : (Tree.heightAll (lowerAll line ds) : ℤ) ≤
        4 * n + ((Symbol.nonterminal r).room - r.own) :=
      heightAll_lowerAll_le (Int.sub_nonneg.2 (own_le_room r)) (keeps_of_mem_body hw).fits
        (by rwa [Int.sub_zero]) hv fun d hd k hk => ih d hd hk
    cases r with
    | rule r =>
      rw [lower, Tree.heightAll, Tree.heightAll, Tree.height, symbol]
      simp only [Nonterminal.own] at hparts
      omega
    | layer l =>
      rw [lower, symbol]
      simpa [Nonterminal.own] using hparts

theorem length_nodesAll_lowerAll_le
    (hds : ∀ d ∈ ds, ((Tree.nodesAll (d.lower line)).length : ℤ) ≤
      (Tree.leavesAll (d.lower line)).length + d.symbol.surplus) :
    ((Tree.nodesAll (lowerAll line ds)).length : ℤ) ≤
      (Tree.leavesAll (lowerAll line ds)).length + ((ds.map symbol).map Symbol.surplus).sum := by
  induction ds with
  | nil => exact le_rfl
  | cons d ds ih =>
    obtain ⟨hd, hds⟩ := List.forall_mem_cons.1 hds
    have hrest := ih hds
    rw [lowerAll, Tree.nodesAll_append, Tree.leavesAll_append, List.length_append,
      List.length_append, List.map_cons, List.map_cons, List.sum_cons]
    omega

/-- **The trees of a symbol have no more inner nodes than leaves and its surplus.** -/
theorem Valid.length_nodes_le (line : List Char) (hd : d.Valid) :
    ((Tree.nodesAll (d.lower line)).length : ℤ) ≤
      (Tree.leavesAll (d.lower line)).length + d.symbol.surplus := by
  induction hd with
  | @leaf k t _ =>
    rw [lower]
    split <;> exact le_rfl
  | @node r ds hw hv ih =>
    have hparts := length_nodesAll_lowerAll_le ih
    have hsurplus := (keeps_of_mem_body hw).surplus
    cases r with
    | rule r =>
      rw [lower, Tree.nodesAll, Tree.nodesAll, Tree.nodes, Tree.leavesAll, Tree.leavesAll,
        Tree.leaves, List.append_nil, List.append_nil, List.length_cons, symbol]
      simp only [Nonterminal.own] at hsurplus
      omega
    | layer l =>
      rw [lower, symbol]
      simp only [Nonterminal.own] at hsurplus
      omega

end Derivation

end Grammar

/-- **How deep the calls over a parsed tree are nested depends only on the parentheses of the
source**, and the tree is no larger than twice its leaves. -/
theorem Source.recursion_bounded {s : Source} {t : Tree} (h : s.tree = .ok t) :
    t.height ≤ 4 * nesting s.content.toList + 6 ∧
    (∀ u ∈ t.nodes, u.RunsWithin (4 * nesting s.content.toList + 6)) ∧
    t.nodes.length + t.leaves.length ≤ 2 * t.leaves.length + 2 := by
  obtain ⟨d, hd, hlow⟩ := exists_derives_of_ofLine (tree_eq_ok_iff.1 h)
  have hheight : t.height ≤ 4 * nesting s.content.toList + 6 := by
    have hle := hd.valid.height_le s.content.toList hd.covers.nestsWithin
    rw [hlow, hd.symbol, Tree.heightAll, Tree.heightAll] at hle
    simp only [Symbol.room] at hle
    omega
  refine ⟨hheight, fun u hu => ?_, ?_⟩
  · rw [Tree.runsWithin_iff]
    exact (t.height_le_of_mem_nodes u hu).trans hheight
  · have hle := hd.valid.length_nodes_le s.content.toList
    rw [hlow, hd.symbol, Tree.nodesAll, Tree.nodesAll, Tree.leavesAll, Tree.leavesAll,
      List.append_nil, List.append_nil] at hle
    simp only [Symbol.surplus] at hle
    omega

/-- A let form opens three parentheses at once. -/
theorem Source.recursion_bounded_letForm : ∃ t,
    (Source.input "(let ((x 1+2*3)) x*(2-y))").tree = .ok t ∧ t.height ≤ 18 ∧
    (∀ u ∈ t.nodes, u.RunsWithin 18) ∧
    t.nodes.length + t.leaves.length ≤ 2 * t.leaves.length + 2 := by
  obtain ⟨t, ht⟩ : ∃ t, (Source.input "(let ((x 1+2*3)) x*(2-y))").tree = .ok t := ⟨_, rfl⟩
  have hnesting : nesting (Source.input "(let ((x 1+2*3)) x*(2-y))").content.toList = 3 := by
    decide
  have hbound := Source.recursion_bounded ht
  rw [hnesting] at hbound
  exact ⟨t, ht, hbound⟩

/-- Without parentheses there may be all of six nodes above each other. -/
example : (Tree.ofLine "1+2*3").toOption.map Tree.height = some 6 := by decide

end ArithLine

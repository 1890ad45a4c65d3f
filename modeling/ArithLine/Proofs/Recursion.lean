import ArithLine.Walk
import ArithLine.Proofs.Spans

/-!
# How deep the calls over a tree are nested

Each function that goes over a tree calls itself for the children of a node, one after another. So
its calls are nested no deeper than the tree is high, however many children a node has.

* `Tree.height`: the number of nodes on the longest way down.
* `Tree.textWithin`, `Tree.dumpWithin`, `Tree.convertWithin`: the functions with a budget of nested
  calls. A node gives each of its children what is left of its own, and without any there is no
  result.
* `Tree.textWithin_eq`, `Tree.dumpWithin_eq`, `Tree.convertWithin_eq`: a budget as large as the
  height is enough, and for texts and dumps a smaller one is not.
-/

namespace ArithLine

namespace Tree

variable {σ : Type}

/-! ## Budgets -/

mutual

/-- The number of nodes on the longest way down a tree, with its root and a leaf. -/
def height : Tree → ℕ
  | node _ ts _ => heightAll ts + 1
  | token .. | bad .. => 1

/-- The greatest height of some trees. -/
def heightAll : List Tree → ℕ
  | [] => 0
  | t :: ts => max t.height (heightAll ts)

end

mutual

/-- The text of a tree, if no more than `n` calls are nested. -/
def textWithin : Tree → ℕ → Option String
  | _, 0 => none
  | node _ ts _, n + 1 => textAllWithin ts n
  | token s _, _ + 1 | bad s _, _ + 1 => some s

/-- The text of some trees, if no more than `n` calls are nested in each. -/
def textAllWithin : List Tree → ℕ → Option String
  | [], _ => some ""
  | t :: ts, n => do return (← t.textWithin n) ++ (← textAllWithin ts n)

end

mutual

/-- The dump of a tree, if no more than `n` calls are nested. -/
def dumpWithin : Tree → ℕ → Option String
  | _, 0 => none
  | node r [] _, _ + 1 => some r.name
  | node r (t :: ts) _, n + 1 => do return "(" ++ r.name ++ (← dumpAllWithin (t :: ts) n) ++ ")"
  | token s _, _ + 1 | bad s _, _ + 1 => some s

/-- The dumps of some trees, if no more than `n` calls are nested in each. -/
def dumpAllWithin : List Tree → ℕ → Option String
  | [], _ => some ""
  | t :: ts, n => do return " " ++ (← t.dumpWithin n) ++ (← dumpAllWithin ts n)

end

mutual

/-- The walk over a tree, if no more than `n` calls are nested. At a leaf there are none. -/
def convertWithin (k : Listener σ) : Tree → ℕ → σ → Option (Option Expr × σ)
  | _, 0, _ => none
  | node r ts sp, n + 1, s =>
    let s := k.note (.visited r ts.length) s
    match r with
    | .expr | .numeral => do
      let (es, s) ← convertAllWithin k ts n s
      return (es.head?, s)
    | .var =>
      match ts with
      | t :: _ => do return (some (.var (← t.textWithin n)), s)
      | [] => some (none, k.note (.reported (.unhandledRule r sp)) s)
    | .chain o => do
      let (es, s) ← convertAllWithin k ts n s
      return (some (.chain o es), s)
    | .letForm | .program => some (none, k.note (.reported (.unhandledRule r sp)) s)
  | token x sp, _ + 1, s => some ((token x sp).convert k s)
  | bad x sp, _ + 1, s => some ((bad x sp).convert k s)

/-- The walk over some trees, if no more than `n` calls are nested in each. -/
def convertAllWithin (k : Listener σ) : List Tree → ℕ → σ → Option (List Expr × σ)
  | [], _, s => some ([], s)
  | t :: ts, n, s => do
    let (e, s) ← t.convertWithin k n s
    let (es, s) ← convertAllWithin k ts n s
    return (e.toList ++ es, s)

end

/-- **Whether no more than `n` calls are nested**, for each function that goes over a tree. -/
structure RunsWithin (t : Tree) (n : ℕ) : Prop where
  text : t.textWithin n = some t.text
  dump : t.dumpWithin n = some t.dump
  convert : ∀ {σ : Type} (k : Listener σ) (s : σ), t.convertWithin k n s = some (t.convert k s)

/-! ## Heights are budgets -/

@[simp] theorem heightAll_append (ts us : List Tree) :
    heightAll (ts ++ us) = max (heightAll ts) (heightAll us) := by
  induction ts with
  | nil => simp [heightAll]
  | cons t ts ih => rw [List.cons_append, heightAll, heightAll, ih, max_assoc]

theorem height_pos (t : Tree) : 0 < t.height := by
  cases t <;> simp [height]

mutual

/-- A tree is at least as high as each node in it. -/
theorem height_le_of_mem_nodes : ∀ t : Tree, ∀ u ∈ t.nodes, u.height ≤ t.height
  | node r ts sp, u, hu => by
    rw [nodes, List.mem_cons] at hu
    rcases hu with rfl | hu
    · exact le_rfl
    · exact (height_le_of_mem_nodesAll ts u hu).trans (Nat.le_succ _)
  | token .., _, hu | bad .., _, hu => by cases hu

theorem height_le_of_mem_nodesAll : ∀ ts : List Tree, ∀ u ∈ nodesAll ts, u.height ≤ heightAll ts
  | [], _, hu => by cases hu
  | t :: ts, u, hu => by
    rw [nodesAll, List.mem_append] at hu
    rcases hu with hu | hu
    · exact (height_le_of_mem_nodes t u hu).trans (le_max_left _ _)
    · exact (height_le_of_mem_nodesAll ts u hu).trans (le_max_right _ _)

end

mutual

/-- **Reading a text back nests as many calls as its tree is high.** -/
theorem textWithin_eq : ∀ (t : Tree) (n : ℕ),
    t.textWithin n = if t.height ≤ n then some t.text else none
  | t, 0 => by
    rw [if_neg (Nat.not_le.2 t.height_pos)]
    cases t <;> rfl
  | node _ ts _, n + 1 => by
    simp only [textWithin, text, height, Nat.add_le_add_iff_right, textAllWithin_eq ts n]
  | token .., n + 1 | bad .., n + 1 => (if_pos (Nat.le_add_left 1 n)).symm

theorem textAllWithin_eq : ∀ (ts : List Tree) (n : ℕ),
    textAllWithin ts n = if heightAll ts ≤ n then some (textAll ts) else none
  | [], n => (if_pos n.zero_le).symm
  | t :: ts, n => by
    rw [textAllWithin, textWithin_eq t n, textAllWithin_eq ts n, heightAll, textAll]
    by_cases ht : t.height ≤ n <;> by_cases hts : heightAll ts ≤ n <;> simp [ht, hts]

end

mutual

/-- **Dumping a tree nests as many calls as it is high.** -/
theorem dumpWithin_eq : ∀ (t : Tree) (n : ℕ),
    t.dumpWithin n = if t.height ≤ n then some t.dump else none
  | t, 0 => by
    rw [if_neg (Nat.not_le.2 t.height_pos)]
    rcases t with ⟨_, _ | _, _⟩ | _ | _ <;> rfl
  | node _ [] _, n + 1 => (if_pos (Nat.le_add_left 1 n)).symm
  | node r (t :: ts) sp, n + 1 => by
    simp only [dumpWithin, dumpAllWithin_eq (t :: ts) n, dump, height, Nat.add_le_add_iff_right]
    split <;> rfl
  | token .., n + 1 | bad .., n + 1 => (if_pos (Nat.le_add_left 1 n)).symm

theorem dumpAllWithin_eq : ∀ (ts : List Tree) (n : ℕ),
    dumpAllWithin ts n = if heightAll ts ≤ n then some (dumpAll ts) else none
  | [], n => (if_pos n.zero_le).symm
  | t :: ts, n => by
    rw [dumpAllWithin, dumpWithin_eq t n, dumpAllWithin_eq ts n, heightAll, dumpAll]
    by_cases ht : t.height ≤ n <;> by_cases hts : heightAll ts ≤ n <;> simp [ht, hts]

end

mutual

/-- **A walk nests no more calls than its tree is high.** A let form is not gone into. -/
theorem convertWithin_eq (k : Listener σ) : ∀ (t : Tree) {n : ℕ} (_ : t.height ≤ n) (s : σ),
    t.convertWithin k n s = some (t.convert k s)
  | t, 0, h, _ => absurd t.height_pos (Nat.not_lt.2 h)
  | node r ts sp, n + 1, h, s => by
    have hts : heightAll ts ≤ n := Nat.le_of_succ_le_succ h
    have hall := convertAllWithin_eq k ts hts (k.note (.visited r ts.length) s)
    cases r with
    | program | letForm => rfl
    | expr | numeral | chain _ =>
      rw [convertWithin, convert]
      simp only [hall]
      rfl
    | var =>
      cases ts with
      | nil => rfl
      | cons t ts =>
        -- only the text of the first child is read
        have ht : t.height ≤ n := (le_max_left _ _).trans hts
        rw [convertWithin, convert]
        simp only [textWithin_eq, if_pos ht]
        rfl
  | token .., n + 1, _, s | bad .., n + 1, _, s => rfl

theorem convertAllWithin_eq (k : Listener σ) : ∀ (ts : List Tree) {n : ℕ} (_ : heightAll ts ≤ n)
    (s : σ), convertAllWithin k ts n s = some (convertAll k ts s)
  | [], _, _, _ => rfl
  | t :: ts, n, h, s => by
    obtain ⟨ht, hts⟩ := max_le_iff.1 h
    rw [convertAllWithin, convertWithin_eq k t ht s]
    simp only [Option.bind_eq_bind, Option.bind_some, convertAllWithin_eq k ts hts]
    rfl

end

/-- **The height of a tree is how deep the calls over it are nested.** -/
theorem runsWithin_iff {t : Tree} {n : ℕ} : t.RunsWithin n ↔ t.height ≤ n := by
  constructor
  · intro h
    by_contra hn
    have htext := h.text
    rw [textWithin_eq, if_neg hn] at htext
    cases htext
  · intro h
    exact ⟨by rw [textWithin_eq, if_pos h], by rw [dumpWithin_eq, if_pos h],
      fun k s => convertWithin_eq k t h s⟩

end Tree

end ArithLine

import ArithLine.Meaning
import ArithLine.Proofs.Grammar.Operands
import ArithLine.Proofs.Grammar.Spacing
import Mathlib.Data.List.ReduceOption

/-!
# What an operand means

The meaning of a tree as a relation, and what follows for the conversion.

* `Tree.Means`: the expression that the parse trees of an operand mean, if any. A let
  form means nothing, parentheses change nothing, and a chain keeps what its operands mean.
* `Tree.items`: what a tree holds outside its let forms that means something or is worth
  a diagnostic.
* `Means.exprs_eq`, `Means.leaves_eq`, `Means.diagnostics_eq`, `Means.chains`: the
  conversion of an operand that means something, part by part.
-/

namespace ArithLine

/-! ## Numerals -/

namespace Numeral

/-- An optional minus and one or more digits. -/
def IsLiteral (cs : List Char) : Prop := ∃ ds, Word.isNumeral ds ∧ (cs = ds ∨ cs = '-' :: ds)

/-- The value of an optional minus and some digits. -/
def signedValue : List Char → ℤ
  | '-' :: ds => -(value ds : ℤ)
  | ds => value ds

theorem toInt?_of_isLiteral {cs : List Char} (h : IsLiteral cs) :
    toInt? cs = some (signedValue cs) := by
  obtain ⟨ds, hds, rfl | rfl⟩ := h
  · have hne : ∀ c r, cs = c :: r → c.isDigit := by
      rintro c r rfl
      simp [Word.isNumeral] at hds
      exact hds.1
    unfold toInt? signedValue
    split
    · exact absurd (hne _ _ rfl) (by decide)
    · exact absurd (hne _ _ rfl) (by decide)
    · simp [hds]
  · simp [toInt?, signedValue, hds]

theorem toInt_ofInt_of_isWord {v : ℤ} (h : isWord v) : (Int64.ofInt v).toInt = v := by
  simp only [isWord, Bool.and_eq_true, decide_eq_true_eq] at h
  exact Int64.toInt_ofInt_of_le h.1 (Int.lt_add_one_of_le h.2)

end Numeral

/-- What a number means: its value, if that fits in 64 bits. -/
def Expr.ofNumber (s : String) : Expr :=
  let v := Numeral.signedValue s.toList
  if Numeral.isWord v then .const (.ofInt v) else .error

theorem Numeral.read?_of_isLiteral {cs : List Char} (h : IsLiteral cs) :
    read? cs = if isWord (signedValue cs) then some (.ofInt (signedValue cs)) else none := by
  rw [read?, toInt?_of_isLiteral h, Option.bind_some, toWord?]

/-! ## Parts of an expression -/

namespace Expr

mutual

/-- The constants, variables and errors of an expression, from left to right. -/
def leaves : Expr → List Expr
  | chain _ es => leavesAll es
  | const n => [const n]
  | var x => [var x]
  | error => [error]

/-- The constants, variables and errors of some expressions. -/
def leavesAll : List Expr → List Expr
  | [] => []
  | e :: es => e.leaves ++ leavesAll es

end

mutual

/-- The operators of an expression's chains and their operands, each chain before those in it. -/
def chains : Expr → List (Op × List Expr)
  | chain o es => (o, es) :: chainsAll es
  | _ => []

/-- The chains of some expressions. -/
def chainsAll : List Expr → List (Op × List Expr)
  | [] => []
  | e :: es => e.chains ++ chainsAll es

end

theorem leavesAll_eq (es : List Expr) : leavesAll es = es.flatMap leaves := by
  induction es with
  | nil => rfl
  | cons e es ih => rw [leavesAll, ih, List.flatMap_cons]

theorem chainsAll_eq (es : List Expr) : chainsAll es = es.flatMap chains := by
  induction es with
  | nil => rfl
  | cons e es ih => rw [chainsAll, ih, List.flatMap_cons]

end Expr

/-! ## Parts of a tree -/

/-- What is worth a note about a tree outside its let forms. -/
inductive Item where
  /-- The token of a numeral. -/
  | number (text : String) (span : Span)
  /-- The token of a variable. -/
  | name (text : String) (span : Span)
  /-- A word that is neither. -/
  | unknown (text : String) (span : Span)
  /-- A let form that is in no other. -/
  | letForm (span : Span)

namespace Item

/-- The node of an expression that stands for an item. A let form has none. -/
def expr? : Item → Option Expr
  | number s _ => some (.ofNumber s)
  | name s _ => some (.var s)
  | unknown _ _ => some .error
  | letForm _ => none

/-- The diagnostic about an item: for a number out of range, an unknown word and a let form. -/
def diagnostic? : Item → Option Diagnostic
  | number s sp =>
    if Numeral.isWord (Numeral.signedValue s.toList) then none else some (.illegalTerminal s sp)
  | name _ _ => none
  | unknown s sp => some (.badWord s sp)
  | letForm sp => some (.unhandledRule .letForm sp)

end Item

namespace Tree

mutual

/-- The items of a tree that stands below a node of a rule, from left to right. -/
def items (parent : Rule) : Tree → List Item
  | node .letForm _ sp => [.letForm sp]
  | node r ts _ => itemsAll r ts
  | token s sp =>
    match parent with
    | .numeral => [.number s sp]
    | .var => [.name s sp]
    | _ => []
  | bad s sp => [.unknown s sp]

/-- The items of some trees that stand below a node of a rule. -/
def itemsAll (parent : Rule) : List Tree → List Item
  | [] => []
  | t :: ts => t.items parent ++ itemsAll parent ts

end

mutual

/-- The operators of a tree's chains outside let forms and their operands, each chain
before those in it. -/
def chains : Tree → List (Op × List (List Tree))
  | node .letForm _ _ => []
  | node (.chain o) ts _ => (o, operandsOf o ts) :: chainsAll ts
  | node _ ts _ => chainsAll ts
  | _ => []

/-- The chains of some trees outside let forms. -/
def chainsAll : List Tree → List (Op × List (List Tree))
  | [] => []
  | t :: ts => t.chains ++ chainsAll ts

end

theorem itemsAll_eq (r : Rule) (ts : List Tree) : itemsAll r ts = ts.flatMap (items r) := by
  induction ts with
  | nil => rfl
  | cons t ts ih => rw [itemsAll, ih, List.flatMap_cons]

theorem chainsAll_eq (ts : List Tree) : chainsAll ts = ts.flatMap chains := by
  induction ts with
  | nil => rfl
  | cons t ts ih => rw [chainsAll, ih, List.flatMap_cons]

theorem exprs_eq (ts : List Tree) : exprs ts = ts.flatMap fun t => t.expr?.toList := by
  induction ts with
  | nil => rfl
  | cons t ts ih => rw [exprs, ih, List.flatMap_cons]

theorem notesAll_eq (ts : List Tree) : notesAll ts = ts.flatMap notes := by
  induction ts with
  | nil => rfl
  | cons t ts ih => rw [notesAll, ih, List.flatMap_cons]

theorem isGlyph_of_isOperator {o : Op} {t : Tree} (h : t.isOperator o) :
    ∃ s sp, t = token s sp ∧ isGlyph s := by
  cases t with
  | token s sp =>
    obtain rfl : s = .ofList [o.glyph] := by simpa [isOperator] using h
    exact ⟨_, _, rfl, by cases o <;> decide⟩
  | node _ _ _ => cases h
  | bad _ _ => cases h

theorem isGlyph_glyph (g : Glyph) (n : ℕ) : isGlyph (Token.text ⟨.glyph g, n⟩) := by
  simp [isGlyph, Token.text, Lexeme.chars, Glyph.ofChar?_char]

theorem isGlyph_eq_false {s : String} (h : Numeral.IsLiteral s.toList) : isGlyph s = false := by
  obtain ⟨ds, hds, hs⟩ := h
  have hword := isWordChar_of_isNumeral hds
  unfold isGlyph
  split
  · next c hc =>
    rcases hs with hs | hs
    · rw [hc] at hs
      subst hs
      rw [ofChar?_of_isWordChar (by simpa using hword.2)]
      rfl
    · rw [hc] at hs
      exact absurd (List.cons.inj hs).2.symm hword.1
  · rfl

/-- What glyphs add nothing to is what the operands of a chain add up to. -/
theorem flatMap_operandsOf {α : Type} (o : Op) {f : Tree → List α}
    (hf : ∀ s sp, isGlyph s → f (token s sp) = []) (ts : List Tree) :
    ts.flatMap f = (operandsOf o ts).flatMap (·.flatMap f) := by
  rw [operandsOf]
  induction ts with
  | nil => rfl
  | cons t ts ih =>
    rw [List.splitOnP_cons_eq_if_modifyHead, List.flatMap_cons, ih]
    split
    · next ht =>
      obtain ⟨s, sp, rfl, hs⟩ := isGlyph_of_isOperator ht
      rw [hf s sp hs, List.flatMap_cons, List.flatMap_nil]
    · obtain ⟨os, rest, hsplit⟩ := List.exists_cons_of_ne_nil (List.splitOnP_ne_nil (isOperator o) ts)
      rw [hsplit, List.modifyHead_cons, List.flatMap_cons, List.flatMap_cons, List.flatMap_cons,
        List.append_assoc]

/-! ## Meaning -/

/-- **What the parse trees of an operand mean**: an expression, or nothing where the operand
is a let form, maybe in parentheses. A chain keeps what its operands mean. -/
inductive Means : List Tree → Option Expr → Prop
  | number {s : String} {sp sp' : Span} (h : Numeral.IsLiteral s.toList) :
    Means [node .numeral [token s sp] sp'] (some (.ofNumber s))
  | name (s : String) (sp sp' : Span) : Means [node .var [token s sp] sp'] (some (.var s))
  | unknown (s : String) (sp : Span) : Means [bad s sp] (some .error)
  | letForm (ts : List Tree) (sp : Span) : Means [node .letForm ts sp] none
  | group {ts : List Tree} {m : Option Expr} (sp sp' sp'' : Span) (h : Means ts m) :
    Means [token "(" sp, node .expr ts sp', token ")" sp''] m
  | chain {o : Op} {ts : List Tree} {ms : List (Option Expr)} (sp : Span)
    (hlen : (operandsOf o ts).length = ms.length)
    (h : ∀ p ∈ (operandsOf o ts).zip ms, Means p.1 p.2) :
    Means [node (.chain o) ts sp] (some (.chain o ms.reduceOption))

/-- Whether an operand is a let form, maybe in parentheses. -/
inductive IsLet : List Tree → Prop
  | letForm (ts : List Tree) (sp : Span) : IsLet [node .letForm ts sp]
  | group {ts : List Tree} (sp sp' sp'' : Span) (h : IsLet ts) :
    IsLet [token "(" sp, node .expr ts sp', token ")" sp'']

/-- Whether some expressions are what some operands mean, in order, without the operands that
are let forms. -/
def Keeps (operands : List (List Tree)) (es : List Expr) : Prop :=
  ∃ ms, List.Forall₂ (fun ts m => Means ts m ∧ (m = none ↔ IsLet ts)) operands ms ∧
    es = ms.reduceOption

namespace Means

variable {ts : List Tree} {m : Option Expr}

/-- Just let forms mean nothing. -/
theorem eq_none_iff (h : Means ts m) : m = none ↔ IsLet ts := by
  induction h with
  | number h => exact ⟨nofun, nofun⟩
  | name s sp sp' => exact ⟨nofun, nofun⟩
  | unknown s sp => exact ⟨nofun, nofun⟩
  | letForm ts sp => exact ⟨fun _ => .letForm ts sp, fun _ => rfl⟩
  | group sp sp' sp'' h ih =>
    rw [ih]
    exact ⟨.group sp sp' sp'', fun | .group _ _ _ h => h⟩
  | chain sp hlen h ih => exact ⟨nofun, nofun⟩

/-- What is said of every operand of a chain is said of all its children. -/
theorem rel_flatMap {α β : Type} {R : α → β → Prop} {o : Op} {ms : List (Option Expr)}
    {f : Tree → List α} {g : Option Expr → List β} (hf : ∀ s sp, isGlyph s → f (token s sp) = [])
    (hlen : (operandsOf o ts).length = ms.length)
    (h : ∀ p ∈ (operandsOf o ts).zip ms, List.Forall₂ R (p.1.flatMap f) (g p.2)) :
    List.Forall₂ R (ts.flatMap f) (ms.flatMap g) := by
  have hall : List.Forall₂ (fun os m => List.Forall₂ R (os.flatMap f) (g m)) (operandsOf o ts) ms :=
    List.forall₂_iff_zip.2 ⟨hlen, h _⟩
  rw [flatMap_operandsOf o hf]
  exact List.rel_flatMap hall fun _ _ hom => hom

/-- The conversion of an operand is what it means. -/
theorem exprs_eq (h : Means ts m) : exprs ts = m.toList := by
  induction h with
  | @number s sp sp' h =>
    by_cases hv : Numeral.isWord (Numeral.signedValue s.toList) <;>
      simp [exprs, expr?, isGlyph_eq_false h, Numeral.read?_of_isLiteral h, Expr.ofNumber, hv]
  | name s sp sp' => rfl
  | unknown s sp => rfl
  | letForm ts sp => rfl
  | @group ts m sp sp' sp'' h ih =>
    simp [exprs, expr?, ih, show isGlyph "(" by decide, show isGlyph ")" by decide]
  | @chain o ts ms sp hlen h ih =>
    -- the operators between the operands convert to nothing
    have hts : ts.flatMap (fun t => t.expr?.toList) = ms.flatMap Option.toList := by
      rw [← List.forall₂_eq_eq_eq]
      refine rel_flatMap (fun s sp hs => by simp [expr?, hs]) hlen fun p hp => ?_
      rw [List.forall₂_eq_eq_eq, ← Tree.exprs_eq, ih p hp]
    rw [exprs, exprs, expr?, Tree.exprs_eq, hts, List.reduceOption, List.filterMap_eq_flatMap_toList]
    rfl

theorem exists_mem_zip {α β : Type} {xs : List α} {ys : List β} (h : xs.length = ys.length) {x : α}
    (hx : x ∈ xs) : ∃ y, (x, y) ∈ xs.zip ys := by
  rw [← List.map_fst_zip (le_of_eq h)] at hx
  obtain ⟨⟨x, y⟩, hp, rfl⟩ := List.mem_map.1 hx
  exact ⟨y, hp⟩

theorem items_token {r : Rule} (hr : r ≠ .numeral ∧ r ≠ .var) (s : String) (sp : Span) :
    items r (token s sp) = [] := by
  cases r <;> simp_all [items]

theorem items_node {r q : Rule} (hq : q ≠ .letForm) (ts : List Tree) (sp : Span) :
    items r (node q ts sp) = itemsAll q ts := by
  cases q <;> simp_all [items]

theorem flatMap_reduceOption {α β : Type} (ms : List (Option α)) (f : α → List β) :
    ms.reduceOption.flatMap f = ms.flatMap fun m => m.toList.flatMap f := by
  rw [List.reduceOption, List.filterMap_eq_flatMap_toList, List.flatMap_assoc]
  rfl

/-- The leaves of what an operand means are those of its items that have an expression. -/
theorem leaves_eq (h : Means ts m) {r : Rule} (hr : r ≠ .numeral ∧ r ≠ .var) :
    m.toList.flatMap Expr.leaves = (itemsAll r ts).filterMap Item.expr? := by
  induction h generalizing r with
  | @number s sp sp' h =>
    by_cases hv : Numeral.isWord (Numeral.signedValue s.toList) <;>
      simp [itemsAll, items, Item.expr?, Expr.leaves, Expr.ofNumber, hv]
  | name s sp sp' => rfl
  | unknown s sp => rfl
  | letForm ts sp => rfl
  | @group ts m sp sp' sp'' h ih =>
    rw [ih (r := .expr) (by simp)]
    simp [itemsAll, items_token hr, items_node]
  | @chain o ts ms sp hlen h ih =>
    have hr : Rule.chain o ≠ .numeral ∧ Rule.chain o ≠ .var := by simp
    have hts : ts.flatMap (fun t => (t.items (.chain o)).filterMap Item.expr?) =
        ms.flatMap fun m => m.toList.flatMap Expr.leaves := by
      rw [← List.forall₂_eq_eq_eq]
      refine rel_flatMap (fun s sp _ => by rw [items_token hr]; rfl) hlen fun p hp => ?_
      rw [List.forall₂_eq_eq_eq, ← List.filterMap_flatMap, ← itemsAll_eq, ih p hp hr]
    rw [itemsAll, itemsAll, items_node (by simp), itemsAll_eq, List.append_nil,
      List.filterMap_flatMap, hts, ← flatMap_reduceOption]
    simp [Expr.leaves, Expr.leavesAll_eq]

/-- The diagnostics of an operand's conversion are those of its items. -/
theorem diagnostics_eq (h : Means ts m) {r : Rule} (hr : r ≠ .numeral ∧ r ≠ .var) :
    (notesAll ts).filterMap Note.diagnostic? = (itemsAll r ts).filterMap Item.diagnostic? := by
  induction h generalizing r with
  | @number s sp sp' h =>
    by_cases hv : Numeral.isWord (Numeral.signedValue s.toList) <;>
      simp [notesAll, notes, isGlyph_eq_false h, Numeral.read?_of_isLiteral h, itemsAll, items,
        Item.diagnostic?, Note.diagnostic?, List.filterMap_cons, hv]
  | name s sp sp' => rfl
  | unknown s sp => rfl
  | letForm ts sp => rfl
  | @group ts m sp sp' sp'' h ih =>
    have hexpr := ih (r := .expr) (by simp)
    simpa [notesAll, notes, itemsAll, items_token hr, items_node, Note.diagnostic?,
      List.filterMap_cons, show isGlyph "(" by decide, show isGlyph ")" by decide] using hexpr
  | @chain o ts ms sp hlen h ih =>
    have hr : Rule.chain o ≠ .numeral ∧ Rule.chain o ≠ .var := by simp
    have hts : ts.flatMap (fun t => t.notes.filterMap Note.diagnostic?) =
        ts.flatMap fun t => (t.items (.chain o)).filterMap Item.diagnostic? := by
      rw [flatMap_operandsOf o fun s sp hs => by rw [notes, hs]; rfl,
        flatMap_operandsOf o fun s sp _ => by rw [items_token hr]; rfl]
      refine List.flatMap_congr fun os hos => ?_
      obtain ⟨m, hm⟩ := exists_mem_zip hlen hos
      rw [← List.filterMap_flatMap, ← List.filterMap_flatMap, ← notesAll_eq, ← itemsAll_eq,
        ih _ hm hr]
    rw [itemsAll, itemsAll, items_node (by simp), itemsAll_eq, List.append_nil,
      List.filterMap_flatMap, ← hts, ← List.filterMap_flatMap, ← notesAll_eq]
    simp [notesAll, notes, Note.diagnostic?, List.filterMap_cons]

/-- The chains of what an operand means are those of its parse trees, in the same order, and
each keeps what its operands mean. -/
theorem chains (h : Means ts m) :
    List.Forall₂ (fun c x => c.1 = x.1 ∧ Keeps c.2 x.2) (chainsAll ts)
      (m.toList.flatMap Expr.chains) := by
  induction h with
  | @number s sp sp' h =>
    by_cases hv : Numeral.isWord (Numeral.signedValue s.toList) <;>
      simp [chainsAll, Tree.chains, Expr.chains, Expr.ofNumber, hv]
  | name s sp sp' => exact .nil
  | unknown s sp => exact .nil
  | letForm ts sp => exact .nil
  | @group ts m sp sp' sp'' h ih =>
    simpa [chainsAll, Tree.chains] using ih
  | @chain o ts ms sp hlen h ih =>
    have hms : Keeps (operandsOf o ts) ms.reduceOption :=
      ⟨ms, List.forall₂_iff_zip.2 ⟨hlen, fun hp => ⟨h _ hp, (h _ hp).eq_none_iff⟩⟩, rfl⟩
    have hts := rel_flatMap (f := Tree.chains) (g := fun m => m.toList.flatMap Expr.chains)
      (fun s sp hs => rfl) hlen fun p hp => by rw [← chainsAll_eq]; exact ih p hp
    rw [← flatMap_reduceOption, ← chainsAll_eq, ← Expr.chainsAll_eq] at hts
    simpa [chainsAll, Tree.chains, Expr.chains] using ⟨hms, hts⟩

end Means

end Tree

end ArithLine

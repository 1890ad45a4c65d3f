import ArithLine.Proofs.Skeleton

/-!
# Where errors come from

Every error in an expression stands for a leaf of its tree that was not understood, and there is a
diagnostic about that leaf. There may be more diagnostics than errors: a node for an expression or a
numeral keeps one of its children, but all of them are converted.

* `Expr.errors`: the places of the errors in an expression, from left to right.
* `Tree.FailsWith`: a leaf that is not understood, and the diagnostic about it.
* `Tree.ErrorFrom`: an error comes from a leaf if what stands there instead turns up in the place of
  the error, and what is reported of it in the place of the diagnostic.
* `Tree.exists_origins`: errors come from leaves, in the order of the diagnostics about these.
* `Tree.errorsReported`: so no error goes unreported, in any tree.
-/

namespace ArithLine

/-! ## The errors of an expression -/

namespace Expr

/-- A place in one of some expressions: those before it, the place in it, and those after it. -/
structure Slot where
  before : List Expr
  inner : Context
  after : List Expr

namespace Slot

/-- The expressions with a part in the place. -/
def fill (s : Slot) (e : Expr) : List Expr := s.before ++ s.inner.fill e :: s.after

/-- The place in a chain of the expressions. -/
def inChain (o : Op) (s : Slot) : Context := .chain o s.before s.inner s.after

/-- The same place, with one more expression before it. -/
def skip (e : Expr) (s : Slot) : Slot := { s with before := e :: s.before }

@[simp] theorem fill_inChain (o : Op) (s : Slot) (e : Expr) :
    (s.inChain o).fill e = .chain o (s.fill e) := rfl

@[simp] theorem fill_skip (e e' : Expr) (s : Slot) : (s.skip e).fill e' = e :: s.fill e' := rfl

@[simp] theorem fill_first (c : Context) (es : List Expr) (e : Expr) :
    fill ⟨[], c, es⟩ e = c.fill e :: es := rfl

end Slot

mutual

/-- The places of the errors in an expression, from left to right. -/
def errors : Expr → List Context
  | error => [.hole]
  | chain o es => (errorsAll es).map (Slot.inChain o)
  | const _ | var _ => []

/-- The places of the errors in some expressions, from left to right. -/
def errorsAll : List Expr → List Slot
  | [] => []
  | e :: es => e.errors.map (fun c => ⟨[], c, es⟩) ++ (errorsAll es).map (Slot.skip e)

end

mutual

/-- The places of the errors are just those that an error is in. -/
theorem mem_errors_iff : ∀ (e : Expr) (c : Context), c ∈ e.errors ↔ c.fill .error = e
  | const _, c | var _, c | error, c => by cases c <;> simp [errors, Context.fill]
  | chain o es, c => by
    rw [errors, List.mem_map]
    constructor
    · rintro ⟨s, hs, rfl⟩
      rw [Slot.fill_inChain, (mem_errorsAll_iff es s).1 hs]
    · intro h
      cases c with
      | hole => cases h
      | chain o' before c after =>
        obtain ⟨rfl, hes⟩ := chain.inj h
        exact ⟨⟨before, c, after⟩, (mem_errorsAll_iff es _).2 hes, rfl⟩

theorem mem_errorsAll_iff : ∀ (es : List Expr) (s : Slot), s ∈ errorsAll es ↔ s.fill .error = es
  | [], s => by simp [errorsAll, Slot.fill]
  | e :: es, ⟨before, c, after⟩ => by
    rw [errorsAll, List.mem_append, List.mem_map, List.mem_map]
    cases before with
    | nil =>
      constructor
      · rintro (⟨c', hc', heq⟩ | ⟨s, -, heq⟩)
        · obtain ⟨-, rfl, rfl⟩ := Slot.mk.inj heq
          rw [Slot.fill_first, (mem_errors_iff e c').1 hc']
        · cases heq
      · intro h
        obtain ⟨hc, rfl⟩ := List.cons.inj h
        exact .inl ⟨c, (mem_errors_iff e c).2 hc, rfl⟩
    | cons f before =>
      constructor
      · rintro (⟨c', -, heq⟩ | ⟨s, hs, heq⟩)
        · cases heq
        · rw [← heq, Slot.fill_skip, (mem_errorsAll_iff es s).1 hs]
      · intro h
        obtain ⟨rfl, hes⟩ := List.cons.inj h
        exact .inr ⟨⟨before, c, after⟩, (mem_errorsAll_iff es _).2 hes, rfl⟩

end

mutual

/-- An expression contains an error just if there is a place for one. -/
theorem containsError_eq : ∀ e : Expr, e.containsError = !e.errors.isEmpty
  | const _ | var _ | error => rfl
  | chain o es => by
    rw [containsError, errors, anyContainsError_eq es, List.isEmpty_map]

theorem anyContainsError_eq : ∀ es : List Expr, anyContainsError es = !(errorsAll es).isEmpty
  | [] => rfl
  | e :: es => by
    rw [anyContainsError, errorsAll, containsError_eq e, anyContainsError_eq es]
    cases e.errors with
    | nil => rw [List.map_nil, List.nil_append, List.isEmpty_map]; rfl
    | cons c cs => rfl

end

end Expr

namespace Tree

/-! ## The leaf that an error comes from -/

/-- A leaf that is not understood, and the diagnostic about it. -/
inductive FailsWith : Tree → Diagnostic → Prop
  | token {x : String} (sp : Span) (glyph : isGlyph x = false)
    (number : Numeral.read? x.toList = none) : FailsWith (token x sp) (.illegalTerminal x sp)
  | bad (x : String) (sp : Span) : FailsWith (bad x sp) (.badWord x sp)

variable {t u : Tree} {ts : List Tree} {d : Diagnostic} {E : Expr.Context} {s : Expr.Slot} {i : ℕ}

theorem FailsWith.diagnostics_eq (h : u.FailsWith d) : u.diagnostics = [d] := by
  cases h with
  | token sp hg hn => rw [diagnostics, notes, hg, hn]; rfl
  | bad => rfl

/-- **Whether an error comes from a leaf**: in the conversion of a tree, the error in one place from
the leaf that diagnostic number `i` is about. Whatever has a meaning and stands there instead of
the leaf turns up in the place of the error, and what is reported about it in the place of the
diagnostic. -/
def ErrorFrom (t : Tree) (E : Expr.Context) (i : ℕ) : Prop :=
  ∃ (c : Context) (u : Tree) (d : Diagnostic), t = c.fill u ∧ FailsWith u d ∧
    (∀ v e, v.expr? = some e → (c.fill v).expr? = some (E.fill e)) ∧
    ∃ ds es, ds.length = i ∧ ∀ v, (c.fill v).diagnostics = ds ++ (v.diagnostics ++ es)

/-- Whether, in the conversion of some trees, an error comes from a leaf of one of them. -/
def ErrorFromAny (ts : List Tree) (s : Expr.Slot) (i : ℕ) : Prop :=
  ∃ (before : List Tree) (c : Context) (after : List Tree) (u : Tree) (d : Diagnostic),
    ts = before ++ c.fill u :: after ∧ u.FailsWith d ∧
    (∀ v e, v.expr? = some e → exprs (before ++ c.fill v :: after) = s.fill e) ∧
    ∃ ds es, ds.length = i ∧
      ∀ v, diagnosticsAll (before ++ c.fill v :: after) = ds ++ (v.diagnostics ++ es)

/-- A leaf that is not understood is where its own error comes from. -/
theorem FailsWith.errorFrom (h : u.FailsWith d) : u.ErrorFrom .hole 0 :=
  ⟨.hole, u, d, rfl, h, fun _ _ he => he, [], [], rfl, fun _ => (List.append_nil _).symm⟩

/-- The diagnostic about the leaf is among those of the tree, in its place. -/
theorem ErrorFrom.exists_diagnostic (h : t.ErrorFrom E i) : ∃ (c : Context) (u : Tree)
    (d : Diagnostic), t = c.fill u ∧ u.FailsWith d ∧ t.diagnostics[i]? = some d := by
  obtain ⟨c, u, d, rfl, hu, -, ds, es, rfl, hds⟩ := h
  refine ⟨c, u, d, rfl, hu, ?_⟩
  rw [hds, hu.diagnostics_eq]
  simp

theorem ErrorFrom.lt (h : t.ErrorFrom E i) : i < t.diagnostics.length := by
  obtain ⟨c, u, d, -, -, hd⟩ := h.exists_diagnostic
  exact (List.getElem?_eq_some_iff.1 hd).1

/-! ## Errors in a list of trees -/

/-- An error from the first of some trees. -/
theorem ErrorFrom.first (h : t.ErrorFrom E i) (ts : List Tree) :
    ErrorFromAny (t :: ts) ⟨[], E, exprs ts⟩ i := by
  obtain ⟨c, u, d, rfl, hu, hexpr, ds, es, rfl, hds⟩ := h
  refine ⟨[], c, ts, u, d, rfl, hu, fun v e he => ?_, ds, es ++ diagnosticsAll ts, rfl, fun v => ?_⟩
  · rw [List.nil_append, exprs, hexpr v e he]
    rfl
  · rw [List.nil_append, diagnosticsAll_cons, hds v]
    simp only [List.append_assoc]

/-- An error from a later one. What the first tree means stands before it, and what is reported
about the first tree is reported before. -/
theorem ErrorFromAny.later (h : ErrorFromAny ts s i) (t : Tree) :
    ErrorFromAny (t :: ts) { s with before := t.expr?.toList ++ s.before }
      (t.diagnostics.length + i) := by
  obtain ⟨before, c, after, u, d, rfl, hu, hexprs, ds, es, rfl, hds⟩ := h
  refine ⟨t :: before, c, after, u, d, rfl, hu, fun v e he => ?_, t.diagnostics ++ ds, es,
    List.length_append, fun v => ?_⟩
  · rw [List.cons_append, exprs, hexprs v e he, Expr.Slot.fill, Expr.Slot.fill]
    exact (List.append_assoc _ _ _).symm
  · rw [List.cons_append, diagnosticsAll_cons, hds v, List.append_assoc]

/-! ## Errors in a node -/

/-- A chain keeps every operand that means something. -/
theorem ErrorFromAny.chain (h : ErrorFromAny ts s i) (o : Op) (sp : Span) :
    ErrorFrom (node (.chain o) ts sp) (s.inChain o) i := by
  obtain ⟨before, c, after, u, d, rfl, hu, hexprs, hds⟩ := h
  refine ⟨.node (.chain o) before c after sp, u, d, rfl, hu, fun v e he => ?_, hds⟩
  rw [Context.fill, expr?, hexprs v e he, Expr.Slot.fill_inChain]

/-- A node for an expression or a numeral keeps the first child that means something, so an error
that comes from its leaves is one of that child. -/
theorem ErrorFromAny.single {es : List Expr} (h : ErrorFromAny ts ⟨[], E, es⟩ i) {r : Rule}
    (hr : r = .expr ∨ r = .numeral) (sp : Span) : ErrorFrom (node r ts sp) E i := by
  obtain ⟨before, c, after, u, d, rfl, hu, hexprs, hds⟩ := h
  refine ⟨.node r before c after sp, u, d, rfl, hu, fun v e he => ?_, ?_⟩
  · have hfirst := hexprs v e he
    rcases hr with rfl | rfl <;> rw [Context.fill, expr?, hfirst] <;> rfl
  · rcases hr with rfl | rfl <;> exact hds

/-! ## All errors of a tree -/

/-- Whether each of some errors comes from a leaf, and their diagnostics are in the order of the
errors. -/
def Origins {α : Type} (R : α → ℕ → Prop) (as : List α) : Prop :=
  ∃ is : List ℕ, is.Pairwise (· < ·) ∧ List.Forall₂ R as is

section Origins

variable {α β : Type} {R : α → ℕ → Prop} {S : β → ℕ → Prop} {as as' : List α} {f : α → β}

theorem Origins.imp {R' : α → ℕ → Prop} (h : Origins R as) (hr : ∀ a i, R a i → R' a i) :
    Origins R' as := by
  obtain ⟨is, his, hall⟩ := h
  exact ⟨is, his, hall.imp hr⟩

theorem Origins.map (h : Origins R as) (hf : ∀ a i, R a i → S (f a) i) : Origins S (as.map f) := by
  obtain ⟨is, his, hall⟩ := h
  exact ⟨is, his, List.forall₂_map_left_iff.2 (hall.imp hf)⟩

theorem Origins.of_map (h : Origins S (as.map f)) (hf : ∀ a i, S (f a) i → R a i) :
    Origins R as := by
  obtain ⟨is, his, hall⟩ := h
  exact ⟨is, his, (List.forall₂_map_left_iff.1 hall).imp hf⟩

theorem Origins.left (h : Origins R (as ++ as')) : Origins R as := by
  obtain ⟨is, his, hall⟩ := h
  have htake := List.forall₂_take as.length hall
  rw [List.take_left] at htake
  exact ⟨is.take as.length, his.sublist (List.take_sublist _ _), htake⟩

/-- Errors are in order if some are that have small numbers, and the others are that have greater
ones. -/
theorem Origins.append {n : ℕ} (h : Origins (fun a i => i < n ∧ R a i) as)
    (h' : Origins (fun a i => R a (n + i)) as') : Origins R (as ++ as') := by
  obtain ⟨is, his, hall⟩ := h
  obtain ⟨js, hjs, hall'⟩ := h'
  obtain ⟨hless, hflip⟩ := (List.forall₂_and_left is as).1 hall.flip
  refine ⟨is ++ js.map (n + ·), List.pairwise_append.2 ⟨his, ?_, ?_⟩,
    List.rel_append hflip.flip (List.forall₂_map_right_iff.2 hall')⟩
  · exact List.pairwise_map.2 (hjs.imp fun hij => Nat.add_lt_add_left hij n)
  · intro i hi j hj
    obtain ⟨k, -, rfl⟩ := List.mem_map.1 hj
    have hi := hless i hi
    omega

end Origins

mutual

/-- **The errors of a tree's expression come from leaves** that are reported in the same order. -/
theorem exists_origins : ∀ (t : Tree) (e : Expr), t.expr? = some e → Origins t.ErrorFrom e.errors
  | node r ts sp, e, h => by
    have hall := exists_originsAll ts
    have hsingle : r = .expr ∨ r = .numeral → (exprs ts).head? = some e →
        Origins (node r ts sp).ErrorFrom e.errors := by
      intro hr hhead
      obtain ⟨es, hes⟩ := List.head?_eq_some_iff.1 hhead
      rw [hes, Expr.errorsAll] at hall
      exact hall.left.of_map fun E i hE => hE.single hr sp
    cases r with
    | expr => exact hsingle (.inl rfl) h
    | numeral => exact hsingle (.inr rfl) h
    | chain o =>
      obtain rfl := Option.some.inj h
      exact hall.map fun s i hs => hs.chain o sp
    | var =>
      obtain ⟨u, -, rfl⟩ := Option.map_eq_some_iff.1 h
      exact ⟨[], .nil, .nil⟩
    | letForm => cases h
    | program => cases h
  | token x sp, e, h => by
    rw [expr?] at h
    split at h
    · cases h
    · next hglyph =>
      obtain rfl := Option.some.inj h
      cases hn : Numeral.read? x.toList with
      | some n => exact ⟨[], .nil, .nil⟩
      | none =>
        have hfails : (token x sp).FailsWith (.illegalTerminal x sp) :=
          .token sp (Bool.eq_false_of_not_eq_true hglyph) hn
        exact ⟨[0], List.pairwise_singleton _ _, .cons hfails.errorFrom .nil⟩
  | bad x sp, e, h => by
    obtain rfl := Option.some.inj h
    exact ⟨[0], List.pairwise_singleton _ _, .cons (FailsWith.bad x sp).errorFrom .nil⟩

theorem exists_originsAll : ∀ ts : List Tree,
    Origins (ErrorFromAny ts) (Expr.errorsAll (exprs ts))
  | [] => ⟨[], .nil, .nil⟩
  | t :: ts => by
    have hrest : Origins (fun s i => ErrorFromAny (t :: ts) { s with
        before := t.expr?.toList ++ s.before } (t.diagnostics.length + i))
        (Expr.errorsAll (exprs ts)) :=
      (exists_originsAll ts).imp fun s i hs => hs.later t
    rw [exprs]
    cases he : t.expr? with
    | none =>
      -- nothing of the first tree is kept, but what is reported about it comes first
      rw [he] at hrest
      exact Origins.append ⟨[], .nil, .nil⟩ hrest
    | some e =>
      rw [he] at hrest
      have hfirst : Origins (fun s i => i < t.diagnostics.length ∧ ErrorFromAny (t :: ts) s i)
          (e.errors.map fun c => ⟨[], c, exprs ts⟩) :=
        (exists_origins t e he).map fun E i hE => ⟨hE.lt, hE.first ts⟩
      exact hfirst.append (hrest.map fun s i hs => hs)

end

/-- **No error goes unreported** in the conversion of a tree. -/
structure ErrorsReported (t : Tree) : Prop where
  /-- The errors of the expression, from left to right, come from leaves, and the diagnostics about
  these leaves have increasing numbers. -/
  origins : ∀ e, (t.convert .journal {}).1 = some e →
    ∃ is : List ℕ, is.Pairwise (· < ·) ∧ List.Forall₂ t.ErrorFrom e.errors is
  /-- The diagnostic with such a number is about a leaf of the tree, a token or a bad word. -/
  reported : ∀ E i, t.ErrorFrom E i → ∃ (c : Context) (u : Tree) (d : Diagnostic),
    t = c.fill u ∧ u.FailsWith d ∧ (t.convert .journal {}).2.entries[i]? = some d
  /-- Where nothing is reported, there is no error. -/
  silent : (t.convert .journal {}).2.entries = [] →
    ∀ e, (t.convert .journal {}).1 = some e → e.containsError = false

/-- **No error goes unreported**, whatever tree is converted. -/
theorem errorsReported (t : Tree) : t.ErrorsReported := by
  have hentries : (t.convert .journal {}).2.entries = t.diagnostics := by
    rw [convert_journal]
    rfl
  have hresult : (t.convert .journal {}).1 = t.expr? := by rw [convert_journal]
  constructor
  · intro e he
    exact exists_origins t e (hresult ▸ he)
  · intro E i hE
    rw [hentries]
    exact hE.exists_diagnostic
  · intro hnone e he
    obtain ⟨is, -, hall⟩ := exists_origins t e (hresult ▸ he)
    rw [hentries] at hnone
    rw [Expr.containsError_eq]
    cases herrors : e.errors with
    | nil => rfl
    | cons E Es =>
      -- the first error would have its diagnostic
      rw [herrors] at hall
      cases hall with
      | @cons _ i _ _ hE _ =>
        have hlt := hE.lt
        rw [hnone] at hlt
        exact absurd hlt (Nat.not_lt_zero i)

/-- A numeral that is made of two bad words is one error with two diagnostics. -/
example : let t : Tree := node .numeral [bad "$" ⟨0, 1⟩, bad "@" ⟨1, 2⟩] ⟨0, 2⟩
    (t.convert .journal {}).1 = some .error ∧
      (t.convert .journal {}).2.entries = [.badWord "$" ⟨0, 1⟩, .badWord "@" ⟨1, 2⟩] :=
  ⟨rfl, rfl⟩

end Tree

end ArithLine

import ArithLine.Proofs.OrderedChoice.Reader

/-!
# Chains with ordered choice

The grammar repeats an operator and its operand for as long as it can, and steps back to before the
last operator if its operand fails. The reader takes this operator in and is refused later on.

* `Role`: something that is wanted in a line, with its pattern and what the reader does.
* `Role.Ends`, `Role.Reads`: what comes of it. It ends, nothing starts, it is stuck, or it halts
  before an operator whose operand was refused.
* `Tier`: operands, and what chains of two operators over them make of the reader.
* `Tier.linked`: what comes of an operator and its operand.
* `Tier.Grows`, `Tier.looped`: what comes of all operators and operands that follow.
-/

namespace ArithLine.OrderedChoice

open Pattern

/-! ## The ends of some trees -/

/-- Some trees start at a byte. -/
def StartsAt (ts : List Tree) (n : ℕ) : Prop := ∃ t ∈ ts.head?, t.span.start = n

/-- Some trees end at a byte. -/
def EndsAt (ts : List Tree) (n : ℕ) : Prop := ∃ t ∈ ts.getLast?, t.span.stop = n

section Ends

variable {ts us : List Tree} {m n : ℕ}

theorem StartsAt.append (h : StartsAt ts n) (us : List Tree) : StartsAt (ts ++ us) n := by
  obtain ⟨t, ht, rfl⟩ := h
  exact ⟨t, by rw [List.head?_append, Option.mem_def.1 ht]; rfl, rfl⟩

theorem EndsAt.append (h : EndsAt us n) (ts : List Tree) : EndsAt (ts ++ us) n := by
  obtain ⟨t, ht, rfl⟩ := h
  exact ⟨t, by rw [List.getLast?_append, Option.mem_def.1 ht]; rfl, rfl⟩

theorem extent_eq (h : StartsAt ts m) (h' : EndsAt ts n) : Tree.extent ts = ⟨m, n⟩ := by
  obtain ⟨t, ht, rfl⟩ := h
  obtain ⟨u, hu, rfl⟩ := h'
  rw [Tree.extent, Option.mem_def.1 ht, Option.mem_def.1 hu]
  rfl

theorem lowerAll_append (ps qs : List Pair) : lowerAll (ps ++ qs) = lowerAll ps ++ lowerAll qs := by
  induction ps with
  | nil => rfl
  | cons p ps ih => rw [List.cons_append, lowerAll, ih, lowerAll, List.append_assoc]

theorem lowerAll_singleton {p : Pair} {t : Tree} (h : p.lower = some t) : lowerAll [p] = [t] := by
  rw [lowerAll, h]
  rfl

/-- The pair of a glyph is its leaf. -/
theorem lowerAll_glyph (g : Glyph) (n : ℕ) (ps : List Pair) :
    lowerAll (.ofGlyph g n :: ps) = Token.leaf ⟨.glyph g, n⟩ :: lowerAll ps := by
  simp [Pair.ofGlyph, lowerAll, Pair.lower, Token.leaf, Token.text, Token.span, Token.stop,
    Lexeme.chars]

end Ends

/-! ## What is wanted -/

/-- Something that is wanted in a line. -/
structure Role where
  /-- What the grammar looks for. -/
  pattern : Pattern
  /-- What the reader knows of the line before it. -/
  Env : Type
  /-- What the reader keeps of it. -/
  Item : Type
  /-- It is wanted. -/
  wanted : Env → Unfinished
  /-- It has been read. -/
  ended : Env → Item → Unfinished
  /-- Its parse trees, if something else stands at a byte. -/
  trees : Item → ℕ → List Tree
  /-- The operators that make it longer. -/
  operators : Item → List Op
  /-- All operators that make some longer. -/
  allOperators : List Op
  /-- What is tried where nothing starts. -/
  refusals : List Expected
  /-- The operators before which it may halt. -/
  Halts : Op → Prop

namespace Role

/-- **It stands from one place to another**: the grammar passes and has tried the operators that
make it longer, none of which is there, and the reader has got to the same place. -/
structure Ends (R : Role) (c d : Cursor) (x : R.Item) (ps : List Pair) (k : Attempts) : Prop where
  passes : Passes R.pattern c d ps k
  shorter : d.rest.length < c.rest.length
  lt : c.pos < d.pos
  tries : k.Tries d.skip.pos ((R.operators x).map fun o => .glyph (.op o))
  stops : ∀ o ∈ R.operators x, d.skip.rest.head? ≠ some o.glyph
  sublist : (R.operators x).Sublist R.allOperators
  lowered : lowerAll ps = R.trees x d.skip.pos
  startsAt : StartsAt (lowerAll ps) c.pos
  endsAt : EndsAt (lowerAll ps) d.pos
  reads : ∀ e, (R.wanted e).readFrom c = (R.ended e x).readFrom d.skip

theorem Ends.lt_skip {R : Role} {c d : Cursor} {x : R.Item} {ps : List Pair} {k : Attempts}
    (h : R.Ends c d x ps k) : c.pos < d.skip.pos := h.lt.trans_le d.pos_le_skip

/-- **What comes of it** where no blank stands. It ends, or attempts stop, at the byte `n` or after
it. -/
inductive Reads (R : Role) (n : ℕ) (c : Cursor) : Prop
  /-- It is there. -/
  | ends {d : Cursor} {x : R.Item} {ps : List Pair} {k : Attempts} (h : R.Ends c d x ps k)
    (hn : n ≤ d.skip.pos)
  /-- Nothing starts there. -/
  | nothing (hc : c.StartsNothing) (h : Fails R.pattern c ⟨c.pos, R.refusals⟩) (hn : n ≤ c.pos)
  /-- The grammar fails farther on, where the reader refuses a token. -/
  | stuck {k : Attempts} {y : Rejection} (h : Fails R.pattern c k) (hk : k.Rejects c.pos y)
    (hn : n ≤ k.pos) (reads : ∀ e, (R.wanted e).readFrom c = .error y)
  /-- The grammar passes, but only up to an operator. The reader takes this operator in and
  refuses a token farther on. -/
  | halts {d : Cursor} {o : Op} {ps : List Pair} {k : Attempts} {y : Rejection}
    (h : Passes R.pattern c d ps k) (ho : R.Halts o) (hd : d.skip.rest.head? = some o.glyph)
    (hle : c.pos ≤ d.skip.pos) (hk : k.Rejects d.skip.pos y) (hn : n ≤ k.pos)
    (reads : ∀ e, (R.wanted e).readFrom c = .error y)

end Role

/-- Operands, and what two operators between them do. -/
structure Tier where
  operand : Role
  first : Op
  second : Op
  /-- What the reader knows of the line before a chain. -/
  Env : Type
  /-- The place of an operand: in a chain that is open, or as the first one. -/
  place : Env → Option OpenChain → operand.Env
  body_eq : ∀ {o}, o = first ∨ o = second → body (.form (.chain o)) = chain o operand.pattern
  /-- An operator goes on with a chain or opens one. -/
  step_eq : ∀ {o}, o = first ∨ o = second → ∀ e p x n,
    (operand.ended (place e p) x).step ⟨.glyph (.op o), n⟩ =
      (OpenChain.extend? p (operand.trees x n) o (Token.leaf ⟨.glyph (.op o), n⟩)).map fun q =>
        operand.wanted (place e (some q))
  wantsOperand : ∀ e, (operand.wanted e).wantsOperand
  not_wantsOperand : ∀ e x, (operand.ended e x).wantsOperand = false
  expected_eq : ∀ e p n, Attempts.rejection ⟨n, operand.refusals⟩ =
    ⟨n, (operand.wanted (place e (some p))).expected⟩
  length_refusals : operand.refusals.length ≠ 1
  ne : first ≠ second
  ne_of_halts : ∀ {o p}, operand.Halts o → p = first ∨ p = second → o ≠ p

namespace Tier

/-- The operators that go on with a chain or open one. -/
def own (T : Tier) : Option OpenChain → List Op
  | none => [T.first, T.second]
  | some p => [p.op]

/-- A chain of a tier, or an operand alone. -/
def above (T : Tier) : Role where
  pattern := layer T.first T.second T.operand.pattern
  Env := T.Env
  Item := Option OpenChain × T.operand.Item
  wanted e := T.operand.wanted (T.place e none)
  ended e x := T.operand.ended (T.place e x.1) x.2
  trees x n := match x.1 with
    | none => T.operand.trees x.2 n
    | some p => [p.close (T.operand.trees x.2 n) n]
  operators x := T.own x.1 ++ T.operand.operators x.2
  allOperators := [T.first, T.second] ++ T.operand.allOperators
  refusals := [.form (.chain T.first), .form (.chain T.second)] ++ T.operand.refusals
  Halts o := (o = T.first ∨ o = T.second) ∨ T.operand.Halts o

/-- A chain, or an operand alone, once an operator has been added. -/
def added (T : Tier) (p : Option OpenChain) (x : T.operand.Item) (o : Op) (n : ℕ) : OpenChain where
  op := o
  before := Token.leaf ⟨.glyph (.op o), n⟩ :: ((T.operand.trees x n).reverse ++
    p.elim [] OpenChain.before)
  operands := p.elim 0 OpenChain.operands + 1

theorem extend?_eq (T : Tier) {p : Option OpenChain} (x : T.operand.Item) {o : Op} (n : ℕ)
    (h : ∀ q ∈ p, q.op = o) :
    OpenChain.extend? p (T.operand.trees x n) o (Token.leaf ⟨.glyph (.op o), n⟩) =
      some (T.added p x o n) := by
  cases p with
  | none => simp [OpenChain.extend?, added]
  | some q => simp [OpenChain.extend?, added, h q rfl]

variable {T : Tier} {c d d' : Cursor} {x x' : T.operand.Item} {ps qs : List Pair}
  {k k' : Attempts} {o o' : Op} {q : OpenChain}

/-! ## One operator and its operand -/

/-- What comes of an operator that stands at a place and of the operand after it. -/
inductive Linked (T : Tier) (o : Op) (p : Option OpenChain) (x : T.operand.Item) (c : Cursor) :
    Prop
  | ends {b d : Cursor} {x' : T.operand.Item} {ps : List Pair} {k : Attempts}
    (h : T.operand.Ends b d x' ps k) (hb : c.pos < b.pos) (hrest : b.rest.length < c.rest.length)
    (passes : Passes (link o T.operand.pattern) c d (.ofGlyph (.op o) c.pos :: ps) k)
    (reads : ∀ e, (T.operand.ended (T.place e p) x).readFrom c =
      (T.operand.ended (T.place e (some (T.added p x o c.pos))) x').readFrom d.skip)
  | fails {k : Attempts} {y : Rejection} (h : Fails (link o T.operand.pattern) c k)
    (hk : k.Rejects c.pos y)
    (reads : ∀ e, (T.operand.ended (T.place e p) x).readFrom c = .error y)
  | halts {d : Cursor} {o' : Op} {ps : List Pair} {k : Attempts} {y : Rejection}
    (h : Passes (link o T.operand.pattern) c d ps k) (ho : T.operand.Halts o')
    (hd : d.skip.rest.head? = some o'.glyph) (hn : c.pos ≤ d.skip.pos) (hk : k.Rejects d.skip.pos y)
    (reads : ∀ e, (T.operand.ended (T.place e p) x).readFrom c = .error y)

theorem linked (ho : o = T.first ∨ o = T.second) (hc : c.rest.head? = some o.glyph)
    {p : Option OpenChain} (hp : ∀ q ∈ p, q.op = o)
    (h : ∀ d, d.IsSkipped → d.rest.length < c.rest.length → T.operand.Reads 0 d) :
    T.Linked o p x c := by
  obtain ⟨b, hb⟩ := exists_past (g := .op o) hc
  have hread : ∀ e, (T.operand.ended (T.place e p) x).readFrom c =
      (T.operand.wanted (T.place e (some (T.added p x o c.pos)))).readFrom b := fun e => by
    refine hb.reads (by simp [T.not_wantsOperand]) ?_
    rw [T.step_eq ho, T.extend?_eq x c.pos hp]
    rfl
  rcases h b hb.isSkipped hb.shorter with @⟨d, x', ps, k, h, -⟩ | ⟨hb', h, -⟩ |
    @⟨k, y, h, hk, -, hy⟩ | @⟨d, o', ps, k, y, h, ho', hd, hle, hk, -, hy⟩
  · exact .ends h hb.lt hb.shorter (hb.passes h.passes) fun e => (hread e).trans (h.reads _)
  · refine .fails (hb.fails h) ⟨hb.lt, rfl⟩ fun e => ?_
    rw [hread, Unfinished.readFrom_of_startsNothing (T.wantsOperand _) hb',
      T.expected_eq e (T.added p x o c.pos)]
  · exact .fails (hb.fails h) (hk.mono hb.lt.le) fun e => (hread e).trans (hy _)
  · exact .halts (hb.passes h) ho' hd (hb.lt.le.trans hle) hk fun e => (hread e).trans (hy _)

/-! ## All operators and operands after the first ones -/

/-- **A chain grows** by the operators and operands that follow its operand `x`. They end at `d`,
with the chain `q'` before the last operand `x'`. -/
structure Grows (T : Tier) (o : Op) (q : OpenChain) (x : T.operand.Item) (k₀ : Attempts)
    (c d : Cursor) (q' : OpenChain) (x' : T.operand.Item) (ps : List Pair) (k : Attempts) :
    Prop where
  passes : Passes (.again (link o T.operand.pattern)) c d ps k
  le : c.pos ≤ d.pos
  le_skip : c.skip.pos ≤ d.skip.pos
  shorter : d.rest.length ≤ c.rest.length
  tries : (k₀.merge k).Tries d.skip.pos ((o :: T.operand.operators x').map fun o => .glyph (.op o))
  stops : ∀ o' ∈ o :: T.operand.operators x', d.skip.rest.head? ≠ some o'.glyph
  sublist : (T.operand.operators x').Sublist T.operand.allOperators
  op_eq : q'.op = o
  grows : d = c ∧ ps = [] ∧ q' = q ∨ 1 < q'.operands ∧ EndsAt (lowerAll ps) d.pos
  children : q'.before.reverse ++ T.operand.trees x' d.skip.pos =
    q.before.reverse ++ T.operand.trees x c.skip.pos ++ lowerAll ps
  reads : ∀ e, (T.operand.ended (T.place e (some q)) x).readFrom c.skip =
    (T.operand.ended (T.place e (some q')) x').readFrom d.skip

/-- No operator of the chain follows. -/
theorem Grows.nil (hop : q.op = o) (hhead : c.skip.rest.head? ≠ some o.glyph)
    (hk : k.Tries c.skip.pos ((T.operand.operators x).map fun o => .glyph (.op o)))
    (hstop : ∀ o' ∈ T.operand.operators x, c.skip.rest.head? ≠ some o'.glyph)
    (hsub : (T.operand.operators x).Sublist T.operand.allOperators) :
    T.Grows o q x k c c q x [] ⟨c.skip.pos, [.glyph (.op o)]⟩ where
  passes := ((fails_glyph (g := .op o) hhead).seq _).again
  le := le_rfl
  le_skip := le_rfl
  shorter := le_rfl
  tries := (hk.merge (.mk_self c.skip.pos [.glyph (.op o)])).congr fun r => by simp [or_comm]
  stops := List.forall_mem_cons.2 ⟨hhead, hstop⟩
  sublist := hsub
  op_eq := hop
  grows := .inl ⟨rfl, rfl, rfl⟩
  children := by simp [lowerAll]
  reads _ := rfl

/-- What comes of the operators and operands that follow an operand `x` in a chain. -/
inductive Looped (T : Tier) (o : Op) (q : OpenChain) (x : T.operand.Item) (k₀ : Attempts)
    (c : Cursor) : Prop
  | ends {d : Cursor} {q' : OpenChain} {x' : T.operand.Item} {ps : List Pair} {k : Attempts}
    (h : T.Grows o q x k₀ c d q' x' ps k)
  | halts {d : Cursor} {o' : Op} {ps : List Pair} {k : Attempts} {y : Rejection}
    (passes : Passes (.again (link o T.operand.pattern)) c d ps k)
    (ho : T.above.Halts o') (hd : d.skip.rest.head? = some o'.glyph)
    (hn : c.skip.pos ≤ d.skip.pos) (hk : k.Rejects d.skip.pos y)
    (reads : ∀ e, (T.operand.ended (T.place e (some q)) x).readFrom c.skip = .error y)

section Cons

variable {b : Cursor} (hq : 0 < q.operands) (hk : k.pos ≤ c.skip.pos)
  (hx : T.operand.Ends b d x' ps k') (hb : c.skip.pos < b.pos)
  (hrest : b.rest.length < c.rest.length)
  (hpass : Passes (link o T.operand.pattern) c.skip d (.ofGlyph (.op o) c.skip.pos :: ps) k')
  (hreads : ∀ e, (T.operand.ended (T.place e (some q)) x).readFrom c.skip =
    (T.operand.ended (T.place e (some (T.added (some q) x o c.skip.pos))) x').readFrom d.skip)

include hq hk hx hb hrest hpass hreads

/-- One more operator and its operand. -/
theorem Grows.cons {d' : Cursor} {q' : OpenChain} {x'' : T.operand.Item} {k'' : Attempts}
    (h : T.Grows o (T.added (some q) x o c.skip.pos) x' k' d d' q' x'' qs k'') :
    T.Grows o q x k c d' q' x'' (.ofGlyph (.op o) c.skip.pos :: ps ++ qs) (k'.merge k'') where
  passes := hpass.again h.passes
  le := c.pos_le_skip.trans ((hb.trans hx.lt).le.trans h.le)
  le_skip := (hb.trans hx.lt_skip).le.trans h.le_skip
  shorter := h.shorter.trans (hx.shorter.trans hrest).le
  -- the attempts before this operator are left behind
  tries := (Attempts.Tries.of_lt (hk.trans_lt ((hb.trans hx.lt_skip).trans_le h.le_skip))).merge
    h.tries
  stops := h.stops
  sublist := h.sublist
  op_eq := h.op_eq
  grows := by
    rw [lowerAll_append, lowerAll_glyph]
    rcases h.grows with ⟨rfl, rfl, rfl⟩ | ⟨hoperands, hends⟩
    · refine .inr ⟨Nat.succ_lt_succ hq, ?_⟩
      have := hx.endsAt.append [Token.leaf ⟨.glyph (.op o), c.skip.pos⟩]
      simpa [lowerAll] using this
    · exact .inr ⟨hoperands, hends.append _⟩
  children := by
    rw [h.children, lowerAll_append, lowerAll_glyph, ← hx.lowered, added]
    simp
  reads e := (hreads e).trans (h.reads e)

theorem Looped.cons (h : T.Looped o (T.added (some q) x o c.skip.pos) x' k' d) :
    T.Looped o q x k c := by
  rcases h with h | ⟨hpass', ho', hd', hn, hk', hreads'⟩
  · exact .ends (.cons hq hk hx hb hrest hpass hreads h)
  · exact .halts (hpass.again hpass') ho' hd' ((hb.trans hx.lt_skip).le.trans hn)
      (hk'.merge_left (hx.tries.le.trans hn)) fun e => (hreads e).trans (hreads' e)

end Cons

theorem looped (ho : o = T.first ∨ o = T.second) (hop : q.op = o) (hq : 0 < q.operands)
    (hk : k.Tries c.skip.pos ((T.operand.operators x).map fun o => .glyph (.op o)))
    (hstop : ∀ o' ∈ T.operand.operators x, c.skip.rest.head? ≠ some o'.glyph)
    (hsub : (T.operand.operators x).Sublist T.operand.allOperators)
    (h : ∀ d, d.IsSkipped → d.rest.length < c.rest.length → T.operand.Reads 0 d) :
    T.Looped o q x k c := by
  -- each further link takes in at least its operator
  induction hlen : c.rest.length using Nat.strong_induction_on generalizing c q x k with
  | _ n ih =>
    by_cases hhead : c.skip.rest.head? = some o.glyph
    · have hle := Cursor.length_skip_le c
      have hp : ∀ q' ∈ some q, q'.op = o := fun q' hq' => Option.some.inj hq' ▸ hop
      rcases linked ho hhead hp fun d hd hlt => h d hd (hlt.trans_le hle) with
        @⟨b, d, x', ps, k', hx, hb, hrest, hpass, hreads⟩ | @⟨k', y, hfail, hk', hreads⟩ |
        @⟨d, o', ps, k', y, hpass, ho', hd, hn, hk', hreads⟩
      · have hlt : d.rest.length < c.rest.length := hx.shorter.trans (hrest.trans_le hle)
        exact .cons hq hk.le hx hb (hrest.trans_le hle) hpass hreads <|
          ih _ (hlen ▸ hlt) rfl (Nat.succ_pos _) hx.tries hx.stops hx.sublist
            (fun d hd hlt' => h d hd (hlt'.trans hlt)) rfl
      · exact .halts hfail.again (.inl ho) hhead le_rfl hk' hreads
      · have hne : d.skip.rest.head? ≠ some o.glyph := by
          rw [hd]
          exact fun heq => T.ne_of_halts ho' ho (Op.glyph_injective (Option.some.inj heq))
        have hnone : Passes (.again (link o T.operand.pattern)) d d [] _ :=
          ((fails_glyph (g := .op o) hne).seq T.operand.pattern).again
        exact .halts (hpass.again hnone) (.inr ho') hd hn (hk'.merge_right le_rfl) hreads
    · exact .ends (.nil hop hhead hk hstop hsub)

end Tier

end ArithLine.OrderedChoice

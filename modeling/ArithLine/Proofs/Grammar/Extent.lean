import ArithLine.Proofs.Grammar.Shape
import ArithLine.Proofs.Grammar.Spacing

/-!
# Where a derivation starts and ends

The parse trees of a derivation start where its first token starts (`Valid.reaches`). They end
where its last token ends, or go on to where something else stands: a chain of two operands goes
on over the blanks after it, and no blank follows these. This is why the extent of a node needs
no more than its first child and its last, whatever these are.

* `Valid.skip_extent`: between the last part of a node and what stands next there are only
  blanks.
* `close_eq`: a chain that the reader closes is the node that its derivation has.
-/

namespace ArithLine

/-- Trees from one parenthesis to another cover all the bytes from the first to the second. -/
theorem Tree.extent_parens (m n : ℕ) (ts : List Tree) :
    Tree.extent (Token.leaf ⟨.glyph .opening, m⟩ :: (ts ++ [Token.leaf ⟨.glyph .closing, n⟩])) =
      ⟨m, n + 1⟩ := by
  rw [Tree.extent, List.head?_cons, ← List.cons_append, List.getLast?_concat]
  rfl

namespace Grammar.Derivation

variable {line : List Char} {stop : ℕ}

/-- Some parse trees start where some tokens do, and end where these do or at the byte `stop`. -/
structure Reaches (ts : List Token) (us : List Tree) (stop : ℕ) : Prop where
  start : ∃ t ∈ ts.head?, ∃ u ∈ us.head?, u.span.start = t.start
  stop : ∃ u ∈ us.getLast?, u.span.stop = stop ∨ ∃ t ∈ ts.getLast?, u.span.stop = t.stop

namespace Reaches

variable {ts ts' : List Token} {us us' : List Tree} {stop' : ℕ}

theorem append (h : Reaches ts us stop') (h' : Reaches ts' us' stop) :
    Reaches (ts ++ ts') (us ++ us') stop := by
  obtain ⟨t, ht, u, hu, hstart⟩ := h.start
  obtain ⟨v, hv, hstop⟩ := h'.stop
  rw [Option.mem_def] at ht hu hv
  refine ⟨⟨t, by simp [ht], u, by simp [hu], hstart⟩, v, by simp [List.getLast?_append, hv], ?_⟩
  rcases hstop with hstop | ⟨w, hw, hstop⟩
  · exact .inl hstop
  · rw [Option.mem_def] at hw
    exact .inr ⟨w, by simp [List.getLast?_append, hw], hstop⟩

/-- The span of all the parse trees. -/
theorem extent (h : Reaches ts us stop) : (∃ t ∈ ts.head?, (Tree.extent us).start = t.start) ∧
    ((Tree.extent us).stop = stop ∨ ∃ t ∈ ts.getLast?, (Tree.extent us).stop = t.stop) := by
  obtain ⟨t, ht, u, hu, hstart⟩ := h.start
  obtain ⟨v, hv, hstop⟩ := h.stop
  rw [Option.mem_def] at hu hv
  have hextent : Tree.extent us = ⟨u.span.start, v.span.stop⟩ := by
    rw [Tree.extent, hu, hv]
    rfl
  rw [hextent]
  exact ⟨⟨t, ht, hstart⟩, hstop⟩

/-- Only blanks stand between the end of the parse trees and the byte `stop`. -/
theorem skip_extent (h : Reaches ts us stop) (hs : Spaced line ts stop) :
    skipBlanks line (Tree.extent us).stop = stop := by
  rcases h.extent.2 with hstop | ⟨t, ht, hstop⟩
  · rw [hstop, hs.skip_stop]
  · rw [hstop, hs.skip_last t ht]

end Reaches

/-- The node of a rule other than a program starts at its first child. It ends at its last child,
or after the blanks there. -/
theorem extent_cases (line : List Char) {r : Rule} (hr : r ≠ .program) (n : ℕ) (ts : List Tree) :
    (extent line r n ts).start = (Tree.extent ts).start ∧
      ((extent line r n ts).stop = (Tree.extent ts).stop ∨
        (extent line r n ts).stop = skipBlanks line (Tree.extent ts).stop) := by
  cases r with
  | program => exact absurd rfl hr
  | chain o =>
    simp only [extent]
    split
    · exact ⟨rfl, .inr rfl⟩
    · exact ⟨rfl, .inl rfl⟩
  | _ => exact ⟨rfl, .inl rfl⟩

theorem reaches_lowerAll {ds : List Derivation} (hds : ds ≠ [])
    (hs : Spaced line (yieldAll ds) stop)
    (h : ∀ d ∈ ds, ∀ stop, Spaced line d.yield stop → Reaches d.yield (d.lower line) stop) :
    Reaches (yieldAll ds) (lowerAll line ds) stop := by
  induction ds with
  | nil => exact absurd rfl hds
  | cons d ds ih =>
    rw [yieldAll, spaced_append] at hs
    have hd := h d List.mem_cons_self _ hs.1
    cases ds with
    | nil => simpa [yieldAll, lowerAll, nextStart] using hd
    | cons e ds =>
      exact hd.append (ih (List.cons_ne_nil e ds) hs.2 fun d hd => h d (List.mem_cons_of_mem _ hd))

/-- **Where the parse trees of a derivation start and end.** -/
theorem Valid.reaches {d : Derivation} (h : d.Valid) (hd : d.symbol ≠ .rule .program)
    (hs : Spaced line d.yield stop) : Reaches d.yield (d.lower line) stop := by
  induction h generalizing stop with
  | @leaf k t _ =>
    refine ⟨⟨t, rfl, _, rfl, ?_⟩, _, rfl, .inr ⟨t, rfl, ?_⟩⟩
    all_goals split <;> rfl
  | @node n ds hw hv ih =>
    obtain ⟨hne, hprog⟩ := word_of_body hw
    have hall : Reaches (yieldAll ds) (lowerAll line ds) stop :=
      reaches_lowerAll (by simpa using hne) hs fun e he stop hse =>
        ih e he (fun h => hprog (h ▸ List.mem_map_of_mem he)) hse
    cases n with
    | layer l => exact hall
    | rule r =>
      -- the node ends at its last child or after the blanks there: both are up to `stop`
      have hr : r ≠ .program := fun h => hd (by rw [h]; rfl)
      obtain ⟨hstart, hstop⟩ := extent_cases line hr ds.length (lowerAll line ds)
      obtain ⟨⟨t, ht, hfirst⟩, hlast⟩ := hall.extent
      refine ⟨⟨t, ht, _, rfl, hstart.trans hfirst⟩, _, rfl, ?_⟩
      rcases hstop with hstop | hstop
      · rcases hlast with hlast | ⟨u, hu, hlast⟩
        · exact .inl (hstop.trans hlast)
        · exact .inr ⟨u, hu, hstop.trans hlast⟩
      · exact .inl (hstop.trans (hall.skip_extent hs))

/-- Only blanks stand between the last part of a node and what stands next. -/
theorem Valid.skip_extent {n : Nonterminal} {ds : List Derivation}
    (h : (Derivation.node n ds).Valid) (hs : Spaced line (yieldAll ds) stop) :
    skipBlanks line (Tree.extent (lowerAll line ds)).stop = stop := by
  cases h with
  | node hw hv =>
    obtain ⟨hne, hprog⟩ := word_of_body hw
    refine (reaches_lowerAll (by simpa using hne) hs fun e he stop hse => ?_).skip_extent hs
    exact (hv e he).reaches (fun h => hprog (h ▸ List.mem_map_of_mem he)) hse

/-- A chain is closed into the node that its derivation has. -/
theorem close_eq {o : Op} {c : OpenChain} {us : List Tree} {ds : List Derivation} (ho : c.op = o)
    (hparts : c.before.reverse ++ us = lowerAll line ds) (hcount : ds.length = 2 * c.operands + 1)
    (hskip : skipBlanks line (Tree.extent (lowerAll line ds)).stop = stop) :
    [c.close us stop] = (node (.rule (.chain o)) ds).lower line := by
  subst ho
  rw [lower, OpenChain.close, hparts, extent, hskip]
  by_cases h : c.operands = 1
  · simp [h, hcount]
  · rw [if_neg h, if_neg (by omega)]

end Grammar.Derivation

end ArithLine

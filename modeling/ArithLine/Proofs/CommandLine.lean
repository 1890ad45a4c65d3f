import ArithLine.CommandLine.Arguments
import Mathlib.Algebra.GroupWithZero.Nat
import Mathlib.Data.List.Perm.Basic

/-!
# Options in any order

A command line is made of items: an option with its value, or the expression. What it chooses does
not depend on the order of its items, and all but those that ask for more logging may stand on it
only once.

* `CommandLine.Item`: an item, and the arguments that it is written as.
* `CommandLine.Gives`: what some items give, said without regard to their order.
* `Choices.add`: what an item adds to choices in which no value waits.
* `Choices.foldlM_arguments`: one item. The value that waits is looked at, and then the item adds to
  the choices, is refused, or waits in its turn (`Choices.accept_cases`).
* `Choices.Settles`: the choices that others come to once the value that waits in them is looked at.
  Items that may all stand add just to these (`Settles.read_eq`), and one that may not is refused
  (`Settles.read_repeated`).
* `Choices.Conflicts`: where a value that has been given before waits, nothing helps any more
  (`Conflicts.read_eq`).
* `CommandLine.items_commute`: the order of the items does not matter, and a kind of item that may
  stand only once is refused if it stands again.
-/

namespace ArithLine

/-- The value that names a format. -/
def Format.value : Format → String
  | .inline => "debug"
  | .indented => "pretty"
  | .json => "json"

/-- The value that says where diagnostics go. -/
def DiagnosticMode.value : DiagnosticMode → String
  | .print => "print"
  | .log => "log"

namespace CommandLine

/-! ## Items -/

/-- The long name of a setting. -/
def Setting.name : Setting → String
  | .format => "format"
  | .diagnostics => "diagnostics"

/-- A setting and the value that it is given. -/
inductive Assignment where
  | format (f : Format)
  | diagnostics (m : DiagnosticMode)
  deriving DecidableEq

namespace Assignment

/-- What is set. -/
def setting : Assignment → Setting
  | format _ => .format
  | diagnostics _ => .diagnostics

/-- What it is set to, in words. -/
def value : Assignment → String
  | format f => f.value
  | diagnostics m => m.value

end Assignment

/-- **An item of a command line.** -/
inductive Item where
  | tree
  /-- A setting. Its value is joined to its name by an equals sign or is the next argument. -/
  | assign (a : Assignment) (joined : Bool)
  /-- A dash and some letters, each of which asks for more logging. -/
  | letters (k : ℕ) (pos : 0 < k)
  | verbose
  /-- An expression. With a dash in front it would be an option. -/
  | expr (e : String) (plain : e.toList.head? ≠ some '-')
  deriving DecidableEq

/-- What may stand on a command line only once. -/
inductive Kind where
  | tree
  | setting (s : Setting)
  | expr
  deriving DecidableEq

namespace Item

/-- The arguments that an item is written as. -/
def arguments : Item → List String
  | tree => ["--tree"]
  | assign a true => ["--" ++ a.setting.name ++ "=" ++ a.value]
  | assign a false => ["--" ++ a.setting.name, a.value]
  | letters k _ => [.ofList ('-' :: List.replicate k 'v')]
  | verbose => ["--verbose"]
  | expr e _ => [e]

/-- The kind of an item that may stand only once. -/
def kind? : Item → Option Kind
  | tree => some .tree
  | assign a _ => some (.setting a.setting)
  | letters .. | verbose => none
  | expr .. => some .expr

/-- The expression that an item gives. -/
def expr? : Item → Option String
  | expr e _ => some e
  | _ => none

/-- The format that an item gives. -/
def format? : Item → Option Format
  | assign (.format f) _ => some f
  | _ => none

/-- Where an item says that diagnostics go. -/
def diagnostics? : Item → Option DiagnosticMode
  | assign (.diagnostics m) _ => some m
  | _ => none

theorem kind?_of_expr? {u : Item} {e : String} (h : u.expr? = some e) : u.kind? = some .expr := by
  cases u <;> first | rfl | cases h

theorem kind?_of_format? {u : Item} {f : Format} (h : u.format? = some f) :
    u.kind? = some (.setting .format) := by
  rcases u with _ | ⟨_ | _, _⟩ | _ | _ | _ <;> first | rfl | cases h

theorem kind?_of_diagnostics? {u : Item} {m : DiagnosticMode} (h : u.diagnostics? = some m) :
    u.kind? = some (.setting .diagnostics) := by
  rcases u with _ | ⟨_ | _, _⟩ | _ | _ | _ <;> first | rfl | cases h

/-- How often an item asks for more logging. -/
def verbosity : Item → ℕ
  | letters k _ => k
  | verbose => 1
  | _ => 0

end Item

/-- The arguments that some items are written as. -/
def arguments (us : List Item) : List String := us.flatMap Item.arguments

/-- How often some items have a kind. -/
def occurrences (k : Kind) (us : List Item) : ℕ := us.countP (·.kind? = some k)

/-- Whether nothing that may stand only once stands again. -/
def AtMostOnce (us : List Item) : Prop := ∀ k, occurrences k us ≤ 1

/-- What is wrong where a kind stands again. -/
def Kind.repeated : Kind → Halt
  | tree | setting _ => .argumentConflict
  | expr => .unknownArgument

/-- Whether a value is the one that some items give, or the default if none of them gives any. -/
structure Chosen {α : Type} (given : Item → Option α) (default : α) (us : List Item) (a : α) :
    Prop where
  of_given : ∀ u ∈ us, ∀ b, given u = some b → a = b
  of_none : (∀ u ∈ us, given u = none) → a = default

/-- **What some items give.** -/
structure Gives (us : List Item) (o : Options) : Prop where
  expr : Chosen (fun u => u.expr?.map some) none us o.expr
  tree : o.tree = true ↔ .tree ∈ us
  format : Chosen Item.format? .inline us o.format
  diagnostics : Chosen Item.diagnostics? .print us o.diagnostics
  verbosity : o.verbosity = min 255 (us.map Item.verbosity).sum

/-! ## Any order -/

section Order

variable {α β : Type} {given : Item → Option α} {default a b : α} {us vs : List Item}

theorem Chosen.unique (ha : Chosen given default us a) (hb : Chosen given default us b) :
    a = b := by
  by_cases hnone : ∀ u ∈ us, given u = none
  · rw [ha.of_none hnone, hb.of_none hnone]
  · push Not at hnone
    obtain ⟨u, hu, hgiven⟩ := hnone
    obtain ⟨c, hc⟩ := Option.ne_none_iff_exists'.1 hgiven
    rw [ha.of_given u hu c hc, hb.of_given u hu c hc]

theorem Chosen.perm (ha : Chosen given default us a) (h : us.Perm vs) :
    Chosen given default vs a :=
  ⟨fun u hu => ha.of_given u (h.mem_iff.2 hu), fun hnone => ha.of_none fun u hu =>
    hnone u (h.mem_iff.1 hu)⟩

theorem Chosen.map (ha : Chosen given default us a) (f : α → β) :
    Chosen (fun u => (given u).map f) (f default) us (f a) := by
  constructor
  · intro u hu b hb
    obtain ⟨c, hc, rfl⟩ := Option.map_eq_some_iff.1 hb
    rw [ha.of_given u hu c hc]
  · intro hnone
    rw [ha.of_none fun u hu => Option.map_eq_none_iff.1 (hnone u hu)]

variable {o o' : Options}

/-- Some items give only one thing. -/
theorem Gives.unique (h : Gives us o) (h' : Gives us o') : o = o' := by
  have htree : o.tree = o'.tree := Bool.eq_iff_iff.2 (h.tree.trans h'.tree.symm)
  have hverbosity : o.verbosity = o'.verbosity := h.verbosity.trans h'.verbosity.symm
  cases o
  cases o'
  simp only [Options.mk.injEq]
  exact ⟨h.expr.unique h'.expr, htree, h.format.unique h'.format,
    h.diagnostics.unique h'.diagnostics, hverbosity⟩

/-- What some items give does not depend on their order. -/
theorem Gives.perm (h : Gives us o) (hp : us.Perm vs) : Gives vs o := by
  refine ⟨h.expr.perm hp, h.tree.trans hp.mem_iff, h.format.perm hp, h.diagnostics.perm hp, ?_⟩
  rw [h.verbosity, (hp.map Item.verbosity).sum_nat]

theorem AtMostOnce.perm (h : AtMostOnce us) (hp : us.Perm vs) : AtMostOnce vs := by
  intro k
  rw [occurrences, ← hp.countP_eq]
  exact h k

end Order

/-- All but an expression conflict with what stands already. -/
theorem Kind.repeated_of_ne {k : Kind} (h : k ≠ .expr) : k.repeated = .argumentConflict := by
  cases k with
  | expr => exact absurd rfl h
  | tree => rfl
  | setting s => rfl

theorem occurrences_cons_of_kind {k : Kind} {u : Item} (h : u.kind? = some k) (us : List Item) :
    occurrences k (u :: us) = occurrences k us + 1 :=
  List.countP_cons_of_pos (by simpa using h)

theorem occurrences_le_cons (k : Kind) (u : Item) (us : List Item) :
    occurrences k us ≤ occurrences k (u :: us) :=
  (List.sublist_cons_self u us).countP_le

/-! ## What an item adds -/

namespace Choices

variable {c d : Choices} {u : Item} {us : List Item} {k : Kind}

/-- Choices with an item. -/
def add (c : Choices) : Item → Choices
  | .tree => { c with tree := true }
  | .assign (.format f) _ => { c with format := some f }
  | .assign (.diagnostics m) _ => { c with diagnostics := some m }
  | .letters k _ => { c with verbosity := min 255 (c.verbosity + k) }
  | .verbose => { c with verbosity := min 255 (c.verbosity + 1) }
  | .expr e _ => { c with expr := some e }

section Add

variable (c : Choices) (u : Item)

theorem expr_add : (c.add u).expr = u.expr?.or c.expr := by
  rcases u with _ | ⟨_ | _, _⟩ | _ | _ | _ <;> rfl

theorem format_add : (c.add u).format = u.format?.or c.format := by
  rcases u with _ | ⟨_ | _, _⟩ | _ | _ | _ <;> rfl

theorem diagnostics_add : (c.add u).diagnostics = u.diagnostics?.or c.diagnostics := by
  rcases u with _ | ⟨_ | _, _⟩ | _ | _ | _ <;> rfl

theorem tree_add : (c.add u).tree = true ↔ c.tree = true ∨ .tree = u := by
  rcases u with _ | ⟨_ | _, _⟩ | _ | _ | _ <;> simp [add]

theorem verbosity_add (hc : c.verbosity ≤ 255) :
    (c.add u).verbosity = min 255 (c.verbosity + u.verbosity) := by
  rcases u with _ | ⟨_ | _, _⟩ | _ | _ | _ <;> simp [add, Item.verbosity, hc]

/-- Nothing of an item waits once it has been added. -/
theorem waiting_add : (c.add u).waiting = c.waiting := by
  rcases u with _ | ⟨_ | _, _⟩ | _ | _ | _ <;> rfl

theorem separated_add : (c.add u).separated = c.separated := by
  rcases u with _ | ⟨_ | _, _⟩ | _ | _ | _ <;> rfl

end Add

/-- How often a kind has been chosen. -/
def chosen (c : Choices) : Kind → ℕ
  | .tree => c.tree.toNat
  | .setting .format => c.format.isSome.toNat
  | .setting .diagnostics => c.diagnostics.isSome.toNat
  | .expr => c.expr.isSome.toNat

theorem chosen_le (c : Choices) (k : Kind) : c.chosen k ≤ 1 := by
  rcases k with _ | (_ | _) | _ <;> exact Bool.toNat_le _

/-- An item whose kind has not been chosen counts once more. -/
theorem chosen_add (hu : ∀ k ∈ u.kind?, c.chosen k = 0) (k : Kind) (us : List Item) :
    (c.add u).chosen k + occurrences k us = c.chosen k + occurrences k (u :: us) := by
  have hadd : (c.add u).chosen k = c.chosen k + if u.kind? = some k then 1 else 0 := by
    by_cases hk : u.kind? = some k
    · rw [if_pos hk, hu k hk]
      rcases u with _ | ⟨_ | _, _⟩ | _ | _ | _ <;> cases hk <;> rfl
    · rw [if_neg hk]
      rcases u with _ | ⟨_ | _, _⟩ | _ | _ | _ <;> rcases k with _ | (_ | _) | _ <;>
        first | rfl | exact absurd rfl hk
  rw [hadd, occurrences, occurrences, List.countP_cons]
  simp only [decide_eq_true_eq]
  omega

/-- What is chosen by items of which at most one gives anything. -/
theorem chosen_foldl {α : Type} {given : Item → Option α} {field : Choices → Option α}
    (hadd : ∀ c u, field (c.add u) = (given u).or (field c)) (h : (us.filterMap given).length ≤ 1)
    (c : Choices) :
    Chosen (fun u => (given u).map some) (field c) us (field (us.foldl add c)) := by
  induction us generalizing c with
  | nil => exact ⟨by simp, fun _ => rfl⟩
  | cons u us ih =>
    have hfield := hadd c u
    cases hu : given u with
    | none =>
      rw [hu, Option.none_or] at hfield
      rw [List.filterMap_cons_none hu] at h
      obtain ⟨hgiven, hnone⟩ := ih h (c.add u)
      rw [hfield] at hnone
      refine ⟨?_, fun hall => hnone fun v hv => hall v (List.mem_cons_of_mem _ hv)⟩
      rintro v (_ | ⟨_, hv⟩) b hb
      · simp [hu] at hb
      · exact hgiven v hv b hb
    | some a =>
      rw [hu, Option.some_or] at hfield
      rw [List.filterMap_cons_some hu, List.length_cons] at h
      -- nothing after `u` gives anything, so what it gives stays
      have hempty : us.filterMap given = [] := List.length_eq_zero_iff.1 (by omega)
      have hothers : ∀ v ∈ us, given v = none := List.filterMap_eq_nil_iff.1 hempty
      have hlast : field ((u :: us).foldl add c) = some a := by
        rw [List.foldl_cons, (ih (by omega) (c.add u)).of_none fun v hv => by simp [hothers v hv],
          hfield]
      rw [hlast]
      refine ⟨?_, fun hall => absurd (hall u List.mem_cons_self) (by simp [hu])⟩
      rintro v (_ | ⟨_, hv⟩) b hb
      · simpa [hu] using hb
      · simp [hothers v hv] at hb

theorem tree_foldl (us : List Item) (c : Choices) :
    (us.foldl add c).tree = true ↔ c.tree = true ∨ .tree ∈ us := by
  induction us generalizing c with
  | nil => simp
  | cons u us ih =>
    rw [List.foldl_cons, ih, tree_add, List.mem_cons, or_assoc]

theorem verbosity_foldl (us : List Item) (c : Choices) (hc : c.verbosity ≤ 255) :
    (us.foldl add c).verbosity = min 255 (c.verbosity + (us.map Item.verbosity).sum) := by
  induction us generalizing c with
  | nil => simp [hc]
  | cons u us ih =>
    have hadd := verbosity_add c u hc
    rw [List.foldl_cons, ih _ (by omega), hadd, List.map_cons, List.sum_cons]
    omega

/-- At most one item gives anything if only items of one kind do and that may stand only once. -/
theorem length_filterMap_le {α : Type} {given : Item → Option α}
    (hgiven : ∀ u a, given u = some a → u.kind? = some k) (h : AtMostOnce us) :
    (us.filterMap given).length ≤ 1 := by
  rw [List.length_filterMap_eq_countP]
  refine Nat.le_trans (List.countP_mono_left fun u _ hu => ?_) (h k)
  obtain ⟨a, ha⟩ := Option.isSome_iff_exists.1 hu
  simpa using hgiven u a ha

/-- What is chosen of a kind that may stand only once. -/
theorem chosen_of_atMostOnce {α : Type} {given : Item → Option α} {field : Choices → Option α}
    (hadd : ∀ c u, field (c.add u) = (given u).or (field c))
    (hgiven : ∀ u a, given u = some a → u.kind? = some k) (h : AtMostOnce us) :
    Chosen (fun u => (given u).map some) (field {}) us (field (us.foldl add {})) :=
  chosen_foldl hadd (length_filterMap_le hgiven h) {}

/-- **What is chosen is what the items give.** -/
theorem gives_foldl (h : AtMostOnce us) : Gives us (us.foldl add {}).options := by
  have hexpr := chosen_of_atMostOnce expr_add (fun _ _ => Item.kind?_of_expr?) h
  have hformat := chosen_of_atMostOnce format_add (fun _ _ => Item.kind?_of_format?) h
  have hdiagnostics :=
    chosen_of_atMostOnce diagnostics_add (fun _ _ => Item.kind?_of_diagnostics?) h
  refine ⟨hexpr, ?_, ?_, ?_, ?_⟩
  · rw [options, tree_foldl]
    simp
  · simpa [Function.comp_def, options] using hformat.map (·.getD .inline)
  · simpa [Function.comp_def, options] using hdiagnostics.map (·.getD .print)
  · rw [options, verbosity_foldl us {} (Nat.zero_le _), Nat.zero_add]

/-! ## Values that wait -/

/-- A setting is set and nothing else is changed. -/
theorem set_eq_ok {s : Setting} {v : String} (h : set c s v = .ok d) :
    d.waiting = c.waiting ∧ d.separated = c.separated ∧ d.expr = c.expr := by
  cases s
  all_goals
    simp only [set, bind, Except.bind, pure, Except.pure] at h
    split at h
    · cases h
    · cases h
      exact ⟨rfl, rfl, rfl⟩

theorem settle_of_waiting (h : c.waiting = none) : c.settle = .ok c := by
  rw [settle, h]

/-- What waits has come, and it changes only the setting that it is for. -/
theorem settle_eq_ok (h : c.settle = .ok d) : d.waiting = none ∧ d.separated = c.separated ∧
    d.expr = c.expr ∧ ∀ s, c.waiting ≠ some (s, none) := by
  unfold settle at h
  split at h
  · next hwaiting =>
    cases h
    exact ⟨hwaiting, rfl, rfl, by simp [hwaiting]⟩
  · cases h
  · next s v hwaiting =>
    obtain ⟨hd, hs, he⟩ := set_eq_ok h
    exact ⟨hd, hs, he, by simp [hwaiting]⟩

/-- Whether some choices come to others once the value that waits in them is looked at. -/
structure Settles (c d : Choices) : Prop where
  settled : c.settle = .ok d
  separated : c.separated = false

theorem Settles.refl (hwaiting : c.waiting = none) (hseparated : c.separated = false) :
    c.Settles c := ⟨settle_of_waiting hwaiting, hseparated⟩

/-- Whether a value that has been given before waits in some choices. -/
structure Conflicts (c : Choices) : Prop where
  settled : c.settle = .error .argumentConflict
  separated : c.separated = false

theorem Conflicts.waiting_ne (h : c.Conflicts) (s : Setting) : c.waiting ≠ some (s, none) := by
  intro hwaiting
  have hsettled := h.settled
  rw [settle, hwaiting] at hsettled
  cases hsettled

/-! ## One item -/

/-- Choices with an item, if it may stand there. -/
def take (c : Choices) (u : Item) : Except Halt Choices :=
  match u.kind? with
  | some k => if c.chosen k = 0 then .ok (c.add u) else .error k.repeated
  | none => .ok (c.add u)

theorem take_eq_ok (hu : ∀ k ∈ u.kind?, c.chosen k = 0) : c.take u = .ok (c.add u) := by
  unfold take
  split
  · next k hk => rw [if_pos (hu k hk)]
  · rfl

theorem take_eq_error (hu : u.kind? = some k) (hk : c.chosen k ≠ 0) :
    c.take u = .error k.repeated := by
  rw [take, hu]
  exact if_neg hk

/-- A setting takes a value once. -/
theorem set_assignment (c : Choices) (a : Assignment) (joined : Bool) :
    set c a.setting a.value = c.take (.assign a joined) := by
  rcases a with f | m
  · have hvalue : Format.ofValue? f.value = some f := by cases f <;> rfl
    cases hf : c.format <;>
      simp [set, store, take, chosen, add, Item.kind?, Kind.repeated, Assignment.setting,
        Assignment.value, hvalue, hf, bind, Except.bind, pure, Except.pure]
  · have hvalue : DiagnosticMode.ofValue? m.value = some m := by cases m <;> rfl
    cases hm : c.diagnostics <;>
      simp [set, store, take, chosen, add, Item.kind?, Kind.repeated, Assignment.setting,
        Assignment.value, hvalue, hm, bind, Except.bind, pure, Except.pure]

theorem ofLong?_name (s : Setting) : ofLong? s.name = some (.inr s) := by
  cases s <;> rfl

theorem ofChars_name (s : Setting) :
    Argument.ofChars ("--" ++ s.name).toList = .long s.name none := by
  cases s <;> decide

theorem ofChars_joined (a : Assignment) :
    Argument.ofChars ("--" ++ a.setting.name ++ "=" ++ a.value).toList =
      .long a.setting.name (some a.value) := by
  rcases a with (_ | _ | _) | (_ | _) <;> decide

theorem ofChars_value (a : Assignment) : Argument.ofChars a.value.toList = .plain := by
  rcases a with (_ | _ | _) | (_ | _) <;> decide

theorem ofChars_letters {n : ℕ} (hn : 0 < n) :
    Argument.ofChars (String.ofList ('-' :: List.replicate n 'v')).toList =
      .short (List.replicate n 'v') := by
  cases n with
  | zero => cases hn
  | succ n => simp [Argument.ofChars, List.replicate_succ]

theorem ofChars_plain {e : String} (he : e.toList.head? ≠ some '-') :
    Argument.ofChars e.toList = .plain := by
  unfold Argument.ofChars
  split <;> simp_all

theorem raise_tree (long : Bool) (c : Choices) :
    raise long c .tree = c.settle.bind (take · .tree) := by
  refine congrArg c.settle.bind (funext fun d => ?_)
  by_cases htree : d.tree = true <;> simp [take, Item.kind?, chosen, Kind.repeated, add, htree]

theorem raise_verbose (long : Bool) (c : Choices) :
    raise long c .verbose = c.settle.bind (take · .verbose) := rfl

/-- Letters ask for more logging, one after another. -/
theorem foldlM_letter (n : ℕ) (c : Choices) : (List.replicate (n + 1) 'v').foldlM letter c =
    c.settle.bind (take · (.letters (n + 1) n.succ_pos)) := by
  have hletter : letter c 'v' = c.settle.bind (take · .verbose) := raise_verbose false c
  induction n generalizing c with
  | zero => exact (bind_pure _).trans hletter
  | succ n ih =>
    rw [List.replicate_succ, List.foldlM_cons, hletter]
    cases hd : c.settle with
    | error e => rfl
    | ok d =>
      -- the verbosity is cut off at each letter, which is no other than to cut it off at the end
      have hadd : (d.add .verbose).add (.letters (n + 1) n.succ_pos) =
          d.add (.letters (n + 2) (n + 1).succ_pos) := by
        simp only [add, Choices.mk.injEq, true_and, and_true]
        omega
      have hsettle : (d.add .verbose).settle = .ok (d.add .verbose) :=
        settle_of_waiting (settle_eq_ok hd).1
      refine (ih (d.add .verbose) (raise_verbose false _)).trans ?_
      rw [hsettle]
      exact congrArg Except.ok hadd

theorem foldlM_one (c : Choices) (a : String) : [a].foldlM step c = step c a :=
  bind_pure _

theorem step_eq_option {a n : String} {v : Option String} (hc : c.separated = false)
    (ha : Argument.ofChars a.toList = .long n v) : step c a = option c n v := by
  simp only [step, hc, ha]
  rfl

theorem step_tree (hc : c.separated = false) : step c "--tree" = raise true c .tree :=
  step_eq_option (n := "tree") (v := none) hc (by decide)

theorem step_verbose (hc : c.separated = false) : step c "--verbose" = raise true c .verbose :=
  step_eq_option (n := "verbose") (v := none) hc (by decide)

theorem step_eq_letters {n : ℕ} (hn : 0 < n) (hc : c.separated = false) :
    step c (.ofList ('-' :: List.replicate n 'v')) = (List.replicate n 'v').foldlM letter c := by
  simp only [step, hc, ofChars_letters hn]
  rfl

theorem step_eq_positional {e : String} (hc : c.separated = false)
    (hcame : ∀ s, c.waiting ≠ some (s, none)) (he : e.toList.head? ≠ some '-') :
    step c e = positional c e := by
  simp only [step, hc, ofChars_plain he]
  rcases hwaiting : c.waiting with _ | ⟨s, _ | v⟩
  · rfl
  · exact absurd hwaiting (hcame s)
  · rfl

/-- What an item does once the value that waits has been looked at. A value that stands apart waits
in its turn. -/
def accept (c : Choices) : Item → Except Halt Choices
  | .assign a false => .ok { c with waiting := some (a.setting, some a.value) }
  | u => c.take u

/-- **The value that waits is looked at, and then an item is accepted.** Only an expression may be
refused before that. -/
theorem foldlM_arguments (hc : c.separated = false) (hcame : ∀ s, c.waiting ≠ some (s, none))
    (hu : u.kind? = some .expr → c.expr = none ∨ ∃ d, c.settle = .ok d) :
    u.arguments.foldlM step c = c.settle.bind (accept · u) := by
  cases u with
  | tree =>
    rw [Item.arguments, foldlM_one, step_tree hc]
    exact raise_tree true c
  | assign a joined =>
    cases joined with
    | true =>
      rw [Item.arguments, foldlM_one, step_eq_option hc (ofChars_joined a)]
      simp only [option, ofLong?_name]
      exact congrArg c.settle.bind (funext fun d => set_assignment d a true)
    | false =>
      rw [Item.arguments, List.foldlM_cons, step_eq_option hc (ofChars_name a.setting)]
      simp only [option, ofLong?_name]
      cases hd : c.settle with
      | error e => rfl
      | ok d =>
        have hseparated : d.separated = false := (settle_eq_ok hd).2.1.trans hc
        refine (foldlM_one _ _).trans ?_
        rw [step]
        simp [hseparated, ofChars_value, accept, Except.bind]
  | letters n hn =>
    obtain ⟨k, rfl⟩ : ∃ k, n = k + 1 := ⟨n - 1, by omega⟩
    rw [Item.arguments, foldlM_one, step_eq_letters hn hc]
    exact foldlM_letter k c
  | verbose =>
    rw [Item.arguments, foldlM_one, step_verbose hc]
    exact raise_verbose true c
  | expr e he =>
    rw [Item.arguments, foldlM_one, step_eq_positional hc hcame he, positional]
    cases hd : c.settle with
    | error x =>
      have hnone : c.expr = none := (hu rfl).resolve_right (by simp [hd])
      simp [hnone, bind, Except.bind]
    | ok d =>
      rw [← (settle_eq_ok hd).2.2.1]
      cases hexpr : d.expr <;>
        simp [accept, take, Item.kind?, chosen, add, Kind.repeated, hexpr, bind, Except.bind, pure,
          Except.pure]

/-- A value that stands apart waits, and anything else is taken. -/
theorem accept_cases (u : Item) (hwaiting : c.waiting = none) : c.accept u = c.take u ∨
    ∃ s d, u.kind? = some (.setting s) ∧ c.accept u = .ok d ∧ d.settle = c.take u ∧
      d.separated = c.separated ∧ d.expr = c.expr := by
  rcases u with _ | ⟨a, _ | _⟩ | _ | _ | _
  case assign.false =>
    right
    refine ⟨a.setting, _, rfl, rfl, ?_, rfl, rfl⟩
    rw [settle, ← set_assignment c a false]
    simp only
    rw [← hwaiting]
  all_goals exact .inl rfl

theorem Settles.accepts (h : c.Settles d) (u : Item) :
    u.arguments.foldlM step c = d.accept u := by
  rw [foldlM_arguments h.separated (settle_eq_ok h.settled).2.2.2 fun _ => .inr ⟨d, h.settled⟩,
    h.settled]
  rfl

/-- Where a value conflicts, an item that is no second expression is refused for that. -/
theorem Conflicts.refuses (h : c.Conflicts) (hu : u.kind? = some .expr → c.expr = none) :
    u.arguments.foldlM step c = .error .argumentConflict := by
  rw [foldlM_arguments h.separated h.waiting_ne fun hk => .inl (hu hk), h.settled]
  rfl

/-! ## All items -/

/-- Reads some arguments to their end. -/
def read (c : Choices) (as : List String) : Except Halt Choices := (as.foldlM step c).bind settle

theorem read_cons (c : Choices) (u : Item) (us : List Item) : c.read (arguments (u :: us)) =
    (u.arguments.foldlM step c).bind fun d => d.read (arguments us) := by
  rw [read, arguments, List.flatMap_cons, List.foldlM_append]
  cases u.arguments.foldlM step c <;> rfl

/-- A conflict is found in the end, whatever comes before that. -/
theorem Conflicts.read_eq (h : c.Conflicts) (hus : c.expr = none ∨ occurrences .expr us = 0) :
    c.read (arguments us) = .error .argumentConflict := by
  cases us with
  | nil => exact h.settled
  | cons u us =>
    rw [read_cons, h.refuses]
    · rfl
    · intro hu
      refine hus.resolve_right fun hnone => ?_
      simp [occurrences, hu] at hnone

/-- An item that may stand there leaves choices to which it has been added. -/
theorem Settles.exists_takes (h : c.Settles d) (hu : ∀ k ∈ u.kind?, d.chosen k = 0) :
    ∃ e, u.arguments.foldlM step c = .ok e ∧ e.Settles (d.add u) := by
  obtain ⟨hwaiting, hseparated, -, -⟩ := settle_eq_ok h.settled
  rw [h.separated] at hseparated
  rw [h.accepts u]
  rcases accept_cases u hwaiting with htake | ⟨-, e, -, haccept, hsettle, hsep, -⟩
  · refine ⟨d.add u, htake.trans (take_eq_ok hu), .refl ?_ ?_⟩
    · rw [waiting_add, hwaiting]
    · rw [separated_add, hseparated]
  · exact ⟨e, haccept, hsettle.trans (take_eq_ok hu), hsep.trans hseparated⟩

/-- **Items that may all stand there** are chosen. -/
theorem Settles.read_eq (h : c.Settles d) (hus : ∀ k, d.chosen k + occurrences k us ≤ 1) :
    c.read (arguments us) = .ok (us.foldl add d) := by
  induction us generalizing c d with
  | nil => exact h.settled
  | cons u us ih =>
    have hu : ∀ k ∈ u.kind?, d.chosen k = 0 := by
      intro k hk
      have hone := hus k
      rw [occurrences_cons_of_kind hk] at hone
      omega
    obtain ⟨e, htake, he⟩ := h.exists_takes hu
    rw [read_cons, htake]
    refine ih he fun k => ?_
    rw [chosen_add hu]
    exact hus k

/-- An item that may not stand there is refused, at once or where the value that it leaves waiting
is looked at. -/
theorem Settles.read_again (h : c.Settles d) (hk : u.kind? = some k) (hchosen : d.chosen k ≠ 0)
    (hexpr : k ≠ .expr → d.chosen .expr + occurrences .expr us ≤ 1) :
    c.read (arguments (u :: us)) = .error k.repeated := by
  obtain ⟨hwaiting, hseparated, -, -⟩ := settle_eq_ok h.settled
  rw [read_cons, h.accepts u]
  rcases accept_cases u hwaiting with haccept | ⟨s, e, hs, haccept, hsettle, hsep, he⟩
  · rw [haccept, take_eq_error hk hchosen]
    rfl
  · obtain rfl : Kind.setting s = k := Option.some.inj (hs.symm.trans hk)
    have hconflicts : e.Conflicts :=
      ⟨hsettle.trans (take_eq_error hk hchosen), hsep.trans (hseparated.trans h.separated)⟩
    rw [haccept]
    refine hconflicts.read_eq ?_
    -- no second expression is met before the conflict
    have hone := hexpr nofun
    rw [he]
    cases hd : d.expr with
    | none => exact .inl rfl
    | some x =>
      have hgiven : d.chosen .expr = 1 := by simp [chosen, hd]
      exact .inr (by omega)

/-- **A kind that stands again** is refused, if nothing is wrong otherwise. -/
theorem Settles.read_repeated (h : c.Settles d) (hk : 2 ≤ d.chosen k + occurrences k us)
    (hothers : ∀ l, l.repeated ≠ k.repeated → d.chosen l + occurrences l us ≤ 1) :
    c.read (arguments us) = .error k.repeated := by
  induction us generalizing c d with
  | nil =>
    have hone := d.chosen_le k
    simp only [occurrences, List.countP_nil] at hk
    omega
  | cons u us ih =>
    by_cases hu : ∀ l ∈ u.kind?, d.chosen l = 0
    · obtain ⟨e, htake, he⟩ := h.exists_takes hu
      rw [read_cons, htake]
      refine ih he ?_ fun l hl => ?_
      · rw [chosen_add hu]
        exact hk
      · rw [chosen_add hu]
        exact hothers l hl
    · push Not at hu
      obtain ⟨l, hl, hchosen⟩ := hu
      -- only what is refused like `k` stands again
      have hrepeated : l.repeated = k.repeated := by
        by_contra hne
        have hone := hothers l hne
        rw [occurrences_cons_of_kind hl] at hone
        omega
      rw [← hrepeated]
      refine h.read_again hl hchosen fun hne => ?_
      have hexpr : Kind.expr.repeated ≠ k.repeated := by
        rw [← hrepeated, Kind.repeated_of_ne hne]
        nofun
      have hone := hothers .expr hexpr
      have hle := occurrences_le_cons .expr u us
      omega

end Choices

theorem ofArguments_eq (as : List String) :
    Options.ofArguments as = (Choices.read {} as).map Choices.options := by
  rw [Options.ofArguments, Choices.read]
  cases as.foldlM Choices.step {} with
  | error e => rfl
  | ok c => cases h : c.settle <;> simp [bind, Except.bind, pure, Except.pure, Except.map, h]

/-- **The order of the items of a command line does not matter.** If nothing that may stand only
once stands again, they choose what they give, in any order. If a flag or a setting stands again,
there is a conflict, and if an expression does, it is an argument too many. -/
theorem items_commute (us : List Item) :
    (AtMostOnce us → ∃ o, Gives us o ∧
      ∀ vs, us.Perm vs → Options.ofArguments (arguments vs) = .ok o) ∧
    (∀ k ≠ .expr, 2 ≤ occurrences k us → occurrences .expr us ≤ 1 →
      Options.ofArguments (arguments us) = .error .argumentConflict) ∧
    (2 ≤ occurrences .expr us → (∀ k ≠ .expr, occurrences k us ≤ 1) →
      Options.ofArguments (arguments us) = .error .unknownArgument) := by
  have hstart : Choices.Settles {} {} := .refl rfl rfl
  have hzero : ∀ k n, Choices.chosen {} k + n = n := by
    rintro (_ | (_ | _) | _) n <;> exact Nat.zero_add n
  refine ⟨fun h => ⟨_, Choices.gives_foldl h, fun vs hp => ?_⟩, fun k hk htwice hone => ?_,
    fun htwice hone => ?_⟩
  · have hvs : AtMostOnce vs := h.perm hp
    rw [ofArguments_eq, hstart.read_eq fun k => (hzero k _).symm ▸ hvs k, Except.map]
    -- in this order they choose what they give, which is the same in every order
    rw [(Choices.gives_foldl hvs).unique ((Choices.gives_foldl h).perm hp)]
  · have hrepeated := Kind.repeated_of_ne hk
    rw [ofArguments_eq, hstart.read_repeated (k := k) ((hzero k _).symm ▸ htwice), hrepeated]
    · rfl
    · intro l hl
      obtain rfl : l = .expr := by
        by_contra hne
        exact hl ((Kind.repeated_of_ne hne).trans hrepeated.symm)
      rw [hzero]
      exact hone
  · rw [ofArguments_eq, hstart.read_repeated (k := .expr) ((hzero _ _).symm ▸ htwice)]
    · rfl
    · intro l hl
      rw [hzero]
      exact hone l fun h => hl (h ▸ rfl)

/-- A value that stands apart, letters and an expression, in two orders; then the value again, and
another expression. -/
theorem items_commute_mixed :
    (∃ o, Options.ofArguments ["--format", "json", "-vv", "1+2", "--verbose"] = .ok o ∧
      Options.ofArguments ["--verbose", "1+2", "-vv", "--format", "json"] = .ok o ∧
      o.format = .json ∧ o.verbosity = 3) ∧
    Options.ofArguments ["--format", "json", "1+2", "--format=json"] = .error .argumentConflict ∧
    Options.ofArguments ["1+2", "--format", "json", "x"] = .error .unknownArgument := by
  have hone : AtMostOnce [.assign (.format .json) false, .letters 2 (by decide),
      .expr "1+2" (by decide), .verbose] := by
    rintro (_ | (_ | _) | _) <;> decide
  obtain ⟨o, hgives, hall⟩ := (items_commute _).1 hone
  refine ⟨⟨o, ?_, ?_, ?_, ?_⟩, ?_, ?_⟩
  · exact hall _ (.refl _)
  · exact hall _ (List.reverse_perm _).symm
  · exact hgives.format.of_given _ List.mem_cons_self _ rfl
  · exact hgives.verbosity
  · exact (items_commute [.assign (.format .json) false, .expr "1+2" (by decide),
      .assign (.format .json) true]).2.1 (.setting .format) (by decide) (by decide) (by decide)
  · refine (items_commute [.expr "1+2" (by decide), .assign (.format .json) false,
      .expr "x" (by decide)]).2.2 (by decide) ?_
    rintro (_ | (_ | _) | _) hk
    · decide
    · decide
    · decide
    · exact absurd rfl hk

end CommandLine

end ArithLine

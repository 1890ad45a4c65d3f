import ArithLine.Expr.Format
import ArithLine.Proofs.Json.Written
import ArithLine.Proofs.Layout.Quoted

/-!
# Written programs are unambiguous

On one line or over several, a written program tells which program it is. The two ways of writing
differ only in what stands around the parts of a call or a list, so both are read off one function.

* `Layout.Manner`: what stands around the parts at each level, with the laws that keep them apart.
* `Layout.write`: a layout in some manner; `inline_eq_write` and `indented_eq_write` say that both
  ways of writing are that.
* `Layout.Legible`: words, quoted texts, and calls and lists of them.
* `Layout.Legible.apart`: a legible layout and what follows it are told apart, in every manner.
* `Program.format_eq_iff`: so are programs; and a program on one line is on one line.
-/

namespace ArithLine

namespace Layout

/-! ## Manners -/

/-- What follows a layout goes on with no word, and is not the argument of a call. -/
def Follows (rest : List Char) : Prop := ∀ c ∈ rest.head?, c = ',' ∨ c = ')' ∨ c = ']'

theorem Follows.append {cs rest : List Char} (h : Follows cs) (h' : Follows rest) :
    Follows (cs ++ rest) := by
  cases cs with
  | nil => exact h'
  | cons c cs => exact h

/-- **What stands around the parts** of a call or a list at a level: before the first, between two,
and after the last. -/
structure Manner where
  enter : ℕ → List Char
  between : ℕ → List Char
  leave : ℕ → List Char
  enter_ne : ∀ n, ']' ∉ (enter n).head?
  between_ne_nil : ∀ n, between n ≠ []
  follows_between : ∀ n, Follows (between n)
  follows_leave : ∀ n, Follows (leave n)
  leave_ne_between : ∀ n rest rest', leave n ++ ']' :: rest ≠ between n ++ rest'

namespace Manner

/-- All parts on one line. -/
def oneLine : Manner where
  enter _ := []
  between _ := [',', ' ']
  leave _ := []
  enter_ne _ := by simp
  between_ne_nil _ := by simp
  follows_between _ := by simp [Follows]
  follows_leave _ := by simp [Follows]
  leave_ne_between _ _ _ := by simp

/-- A line break and the blanks before a line at a level. -/
def newLine (level : ℕ) : List Char := '\n' :: (margin level).toList

theorem newLine_succ (level : ℕ) :
    newLine (level + 1) = newLine level ++ List.replicate 4 ' ' := by
  have hlength : 4 * (level + 1) = 4 * level + 4 := rfl
  rw [newLine, newLine, margin, margin, String.toList_ofList, String.toList_ofList, hlength,
    ← List.replicate_append_replicate, List.cons_append]

/-- Each part on a line of its own. -/
def manyLines : Manner where
  enter n := newLine (n + 1)
  between n := ',' :: newLine (n + 1)
  leave n := ',' :: newLine n
  enter_ne _ := by simp [newLine]
  between_ne_nil _ := by simp
  follows_between _ := by simp [Follows]
  follows_leave _ := by simp [Follows]
  leave_ne_between n rest rest' := by
    -- the lines of two parts are indented deeper than the closing bracket
    intro h
    rw [newLine_succ, List.cons_append, List.cons_append, List.cons.injEq, List.append_assoc,
      List.append_cancel_left_eq] at h
    exact absurd (List.cons.inj h.2).1 (by decide)

end Manner

/-! ## One function for both -/

mutual

/-- **A layout in some manner**, at a level. -/
def write (m : Manner) (level : ℕ) : Layout → List Char
  | atom s => s.toList
  | call h a => h.toList ++ '(' ::
      (m.enter level ++ (a.write m (level + 1) ++ (m.leave level ++ [')'])))
  | list [] => ['[', ']']
  | list (t :: ts) => '[' :: (m.enter level ++ (t.write m (level + 1) ++ writeRest m level ts))

/-- The parts of a list but the first, and its end. -/
def writeRest (m : Manner) (level : ℕ) : List Layout → List Char
  | [] => m.leave level ++ [']']
  | t :: ts => m.between level ++ (t.write m (level + 1) ++ writeRest m level ts)

end

mutual

theorem inline_eq_write (l : Layout) (level : ℕ) : l.inline.toList = l.write .oneLine level := by
  match l with
  | atom s => rfl
  | call h a =>
    have harg := inline_eq_write a (level + 1)
    simp [inline, write, Manner.oneLine, harg]
  | list [] => simp [inline, inlineAll, write]
  | list (t :: ts) =>
    have hfirst := inline_eq_write t (level + 1)
    have hrest := inlineAll_eq_write t ts level
    simp [inline, write, Manner.oneLine, hfirst, hrest]

/-- What stands after a part and before the next is a comma and a blank. -/
theorem inlineAll_eq_write (t : Layout) (ts : List Layout) (level : ℕ) :
    (inlineAll (t :: ts)).toList ++ [']'] = t.inline.toList ++ writeRest .oneLine level ts := by
  match ts with
  | [] => simp [inlineAll, writeRest, Manner.oneLine]
  | u :: us =>
    have hnext := inline_eq_write u (level + 1)
    have hrest := inlineAll_eq_write u us level
    simp [inlineAll, writeRest, Manner.oneLine, hnext, hrest]

end

mutual

theorem indented_eq_write (l : Layout) (level : ℕ) :
    (l.indented level).toList = l.write .manyLines level := by
  match l with
  | atom s => simp [indented, write]
  | call h a =>
    have harg := indented_eq_write a (level + 1)
    simp [indented, write, Manner.manyLines, Manner.newLine, harg]
  | list [] => simp [indented, write]
  | list (t :: ts) =>
    have hfirst := indented_eq_write t (level + 1)
    have hrest := indentedAll_eq_write ts level
    simp [indented, write, indentedAll, Manner.manyLines, Manner.newLine, hfirst, hrest]

/-- What stands after a part is its own comma and line break, and then the others. -/
theorem indentedAll_eq_write (ts : List Layout) (level : ℕ) :
    ',' :: '\n' :: ((indentedAll (level + 1) ts).toList ++ ((margin level).toList ++ [']'])) =
      writeRest .manyLines level ts := by
  match ts with
  | [] => simp [indentedAll, writeRest, Manner.manyLines, Manner.newLine]
  | t :: ts =>
    have hnext := indented_eq_write t (level + 1)
    have hrest := indentedAll_eq_write ts level
    simp [indentedAll, writeRest, Manner.manyLines, Manner.newLine, hnext, hrest]

end

/-! ## Legible layouts -/

/-- A character of a tag or a number. -/
def isPlain (c : Char) : Bool := c.isAlphanum || c == '-'

/-- One or more of the characters of tags and numbers. -/
def IsPlain (cs : List Char) : Prop := cs ≠ [] ∧ cs.all isPlain

/-- **A layout that can be read**: its texts are plain or stand between quotes. -/
inductive Legible : Layout → Prop
  | plain {x : String} (hx : IsPlain x.toList) : Legible (atom x)
  | quoted (x : String) : Legible (atom (ArithLine.quoted x))
  | call {x : String} {a : Layout} (hx : IsPlain x.toList) (ha : Legible a) : Legible (call x a)
  | list {ts : List Layout} (hts : ∀ t ∈ ts, Legible t) : Legible (list ts)

variable {m : Manner} {level : ℕ} {l l' a : Layout} {ts ts' : List Layout} {x : String}
  {xs ys rest rest' : List Char}

theorem IsPlain.ne_cons (h : IsPlain xs) {c : Char} (hc : isPlain c = false) :
    xs ++ rest ≠ c :: rest' := by
  obtain ⟨d, r, rfl⟩ := List.exists_cons_of_ne_nil h.1
  have hd : isPlain d := List.all_eq_true.1 h.2 d List.mem_cons_self
  intro heq
  rw [(List.cons.inj heq).1, hc] at hd
  cases hd

theorem IsPlain.takeWhile_eq (h : IsPlain xs) (hrest : ∀ c ∈ rest.head?, isPlain c = false) :
    (xs ++ rest).takeWhile isPlain = xs := by
  rw [List.takeWhile_append_of_pos (List.all_eq_true.1 h.2)]
  cases rest with
  | nil => simp
  | cons c r => simp [hrest c rfl]

/-- Two plain texts are the same where what follows is not. -/
theorem IsPlain.append_inj (hx : IsPlain xs) (hy : IsPlain ys)
    (hrest : ∀ c ∈ rest.head?, isPlain c = false) (hrest' : ∀ c ∈ rest'.head?, isPlain c = false)
    (h : xs ++ rest = ys ++ rest') : xs = ys ∧ rest = rest' := by
  have hxy : xs = ys := by
    rw [← hx.takeWhile_eq hrest, h, hy.takeWhile_eq hrest']
  rw [hxy] at h
  exact ⟨hxy, List.append_cancel_left h⟩

theorem Follows.not_isPlain (h : Follows rest) : ∀ c ∈ rest.head?, isPlain c = false := by
  intro c hc
  rcases h c hc with rfl | rfl | rfl <;> decide

theorem Follows.ne_parenthesis (h : Follows rest) : rest ≠ '(' :: rest' := by
  rintro rfl
  simpa using h '(' rfl

theorem not_isPlain_parenthesis : ∀ c ∈ ('(' :: rest).head?, isPlain c = false := by
  intro c hc
  rw [← Option.some.inj hc]
  decide

/-! ## Layouts before other characters -/

theorem write_call_append (m : Manner) (level : ℕ) (x : String) (a : Layout) (rest : List Char) :
    (Layout.call x a).write m level ++ rest = x.toList ++ '(' ::
      (m.enter level ++ (a.write m (level + 1) ++ (m.leave level ++ ')' :: rest))) := by
  simp [write]

theorem write_cons_append (m : Manner) (level : ℕ) (t : Layout) (ts : List Layout)
    (rest : List Char) : (Layout.list (t :: ts)).write m level ++ rest =
      '[' :: (m.enter level ++ (t.write m (level + 1) ++ (writeRest m level ts ++ rest))) := by
  simp [write]

theorem writeRest_nil_append (m : Manner) (level : ℕ) (rest : List Char) :
    writeRest m level [] ++ rest = m.leave level ++ ']' :: rest := by
  simp [writeRest]

theorem writeRest_cons_append (m : Manner) (level : ℕ) (t : Layout) (ts : List Layout)
    (rest : List Char) : writeRest m level (t :: ts) ++ rest =
      m.between level ++ (t.write m (level + 1) ++ (writeRest m level ts ++ rest)) := by
  simp [writeRest]

theorem quoted_append (x : String) (rest : List Char) : (ArithLine.quoted x).toList ++ rest =
    '"' :: (x.toList.flatMap Quoted.escape ++ '"' :: rest) := by
  simp [ArithLine.quoted, Quoted.encode]

theorem write_list (m : Manner) (level : ℕ) (ts : List Layout) :
    ∃ r, (Layout.list ts).write m level = '[' :: r := by
  cases ts with
  | nil => exact ⟨_, rfl⟩
  | cons t ts => exact ⟨_, rfl⟩

/-! ## What some characters are the layout of -/

/-- Only a plain text is written as one. -/
theorem Legible.eq_plain (hl : l.Legible) (hx : IsPlain x.toList) (hrest : Follows rest)
    (hrest' : Follows rest') (h : x.toList ++ rest = l.write m level ++ rest') :
    atom x = l ∧ rest = rest' := by
  cases hl with
  | plain hy =>
    obtain ⟨hxy, heq⟩ := hx.append_inj hy hrest.not_isPlain hrest'.not_isPlain h
    exact ⟨congrArg atom (String.toList_inj.1 hxy), heq⟩
  | quoted y =>
    rw [write, quoted_append] at h
    exact absurd h (hx.ne_cons (by decide))
  | call hy _ =>
    -- what follows a layout does not go on with the argument of a call
    rw [write_call_append] at h
    have heq := (hx.append_inj hy hrest.not_isPlain not_isPlain_parenthesis h).2
    exact absurd heq hrest.ne_parenthesis
  | list _ =>
    obtain ⟨r, hr⟩ := write_list m level _
    rw [hr] at h
    exact absurd h (hx.ne_cons (by decide))

/-- Only a quoted text is written between quotes. -/
theorem Legible.eq_quoted (hl : l.Legible)
    (h : (ArithLine.quoted x).toList ++ rest = l.write m level ++ rest') :
    atom (ArithLine.quoted x) = l ∧ rest = rest' := by
  cases hl with
  | plain hy =>
    rw [write, quoted_append] at h
    exact absurd h.symm (hy.ne_cons (by decide))
  | quoted y =>
    rw [write, ArithLine.quoted, ArithLine.quoted, String.toList_ofList, String.toList_ofList] at h
    obtain ⟨hxy, heq⟩ := Quoted.encode_append_inj h
    exact ⟨by rw [String.toList_inj.1 hxy], heq⟩
  | call hy _ =>
    rw [quoted_append, write_call_append] at h
    exact absurd h.symm (hy.ne_cons (by decide))
  | list _ =>
    obtain ⟨r, hr⟩ := write_list m level _
    rw [hr, quoted_append] at h
    exact absurd (List.cons.inj h).1 (by decide)

/-- Only a call is written with its parentheses. -/
theorem Legible.eq_call (hl : l.Legible) (hx : IsPlain x.toList) (hrest' : Follows rest')
    (h : x.toList ++ '(' :: rest = l.write m level ++ rest') :
    ∃ a : Layout, a.Legible ∧ Layout.call x a = l ∧
      rest = m.enter level ++ (a.write m (level + 1) ++ (m.leave level ++ ')' :: rest')) := by
  cases hl with
  | plain hy =>
    have heq := (hx.append_inj hy not_isPlain_parenthesis hrest'.not_isPlain h).2
    exact absurd heq.symm hrest'.ne_parenthesis
  | quoted y =>
    rw [write, quoted_append] at h
    exact absurd h (hx.ne_cons (by decide))
  | @call y a hy ha =>
    rw [write_call_append] at h
    obtain ⟨hxy, heq⟩ := hx.append_inj hy not_isPlain_parenthesis not_isPlain_parenthesis h
    exact ⟨a, ha, by rw [String.toList_inj.1 hxy], (List.cons.inj heq).2⟩
  | list _ =>
    obtain ⟨r, hr⟩ := write_list m level _
    rw [hr] at h
    exact absurd h (hx.ne_cons (by decide))

/-- Only a list is written between brackets. -/
theorem Legible.eq_list (hl : l.Legible) (h : '[' :: rest = l.write m level ++ rest') :
    ∃ ts : List Layout, (∀ t ∈ ts, t.Legible) ∧ Layout.list ts = l := by
  cases hl with
  | plain hy => exact absurd h.symm (hy.ne_cons (by decide))
  | quoted y =>
    rw [write, quoted_append] at h
    exact absurd (List.cons.inj h).1 (by decide)
  | call hy _ =>
    rw [write_call_append] at h
    exact absurd h.symm (hy.ne_cons (by decide))
  | list hts => exact ⟨_, hts, rfl⟩

/-! ## Reading back -/

/-- **A layout is told apart** from every other that can be read, and from what follows it. -/
def Apart (m : Manner) (level : ℕ) (l : Layout) : Prop :=
  ∀ {l' : Layout} {rest rest' : List Char}, l'.Legible → Follows rest → Follows rest' →
    l.write m level ++ rest = l'.write m level ++ rest' → l = l' ∧ rest = rest'

theorem follows_leave_parenthesis (m : Manner) (level : ℕ) (rest : List Char) :
    Follows (m.leave level ++ ')' :: rest) :=
  (m.follows_leave level).append (by simp [Follows])

theorem follows_leave_bracket (m : Manner) (level : ℕ) (rest : List Char) :
    Follows (m.leave level ++ ']' :: rest) :=
  (m.follows_leave level).append (by simp [Follows])

theorem follows_writeRest (m : Manner) (level : ℕ) (ts : List Layout) (rest : List Char) :
    Follows (writeRest m level ts ++ rest) := by
  cases ts with
  | nil =>
    rw [writeRest_nil_append]
    exact follows_leave_bracket m level rest
  | cons t ts =>
    -- what stands between two parts is not nothing
    obtain ⟨c, r, hbetween⟩ := List.exists_cons_of_ne_nil (m.between_ne_nil level)
    have hfollows := m.follows_between level
    rw [hbetween] at hfollows
    rw [writeRest_cons_append, hbetween]
    exact hfollows

/-- The parts of a list are told apart one by one. -/
theorem writeRest_inj (hts : ∀ t ∈ ts, Apart m (level + 1) t) (hts' : ∀ t ∈ ts', t.Legible)
    (h : writeRest m level ts ++ rest = writeRest m level ts' ++ rest') :
    ts = ts' ∧ rest = rest' := by
  induction ts generalizing ts' with
  | nil =>
    cases ts' with
    | nil => exact ⟨rfl, List.append_cancel_left h⟩
    | cons t' ts' =>
      -- where one list ends, the other goes on
      rw [writeRest_nil_append, writeRest_cons_append] at h
      exact absurd h (m.leave_ne_between level _ _)
  | cons t ts ih =>
    cases ts' with
    | nil =>
      rw [writeRest_nil_append, writeRest_cons_append] at h
      exact absurd h.symm (m.leave_ne_between level _ _)
    | cons t' ts' =>
      rw [writeRest_cons_append, writeRest_cons_append, List.append_cancel_left_eq] at h
      obtain ⟨rfl, htail⟩ := hts t List.mem_cons_self (hts' t' List.mem_cons_self)
        (follows_writeRest m level ts rest) (follows_writeRest m level ts' rest') h
      obtain ⟨rfl, heq⟩ := ih (fun u hu => hts u (List.mem_cons_of_mem _ hu))
        (fun u hu => hts' u (List.mem_cons_of_mem _ hu)) htail
      exact ⟨rfl, heq⟩

/-- A legible layout does not start with the bracket that ends a list. -/
theorem Legible.write_ne (hl : l.Legible) : l.write m level ++ rest ≠ ']' :: rest' := by
  cases hl with
  | plain hy => exact hy.ne_cons (by decide)
  | quoted y =>
    rw [write, quoted_append]
    exact fun h => absurd (List.cons.inj h).1 (by decide)
  | call hy _ =>
    rw [write_call_append]
    exact hy.ne_cons (by decide)
  | list _ =>
    obtain ⟨r, hr⟩ := write_list m level _
    rw [hr]
    exact fun h => absurd (List.cons.inj h).1 (by decide)

/-- So a list with a part is never written as the empty list is. -/
theorem Legible.write_cons_ne {t : Layout} (ht : t.Legible) :
    (Layout.list (t :: ts)).write m level ++ rest ≠ (Layout.list []).write m level ++ rest' := by
  intro h
  have hopened := (List.cons.inj ((write_cons_append m level t ts rest).symm.trans h)).2
  have henter := m.enter_ne level
  cases hm : m.enter level with
  | nil =>
    rw [hm] at hopened
    exact ht.write_ne hopened
  | cons c r =>
    rw [hm] at hopened henter
    exact henter (congrArg some (List.cons.inj hopened).1)

/-- **A legible layout and what follows it are told apart**, in every manner. -/
theorem Legible.apart (hl : l.Legible) (m : Manner) (level : ℕ) : Apart m level l := by
  induction hl generalizing level with
  | plain hx => exact fun hl' hrest hrest' h => hl'.eq_plain hx hrest hrest' h
  | quoted x => exact fun hl' _ _ h => hl'.eq_quoted h
  | @call x a hx _ ih =>
    intro l' rest rest' hl' _ hrest' h
    rw [write_call_append] at h
    obtain ⟨a', ha', rfl, hargument⟩ := hl'.eq_call hx hrest' h
    -- the argument is told apart from what leaves the parentheses
    rw [List.append_cancel_left_eq] at hargument
    obtain ⟨rfl, htail⟩ := ih (level + 1) ha' (follows_leave_parenthesis m level rest)
      (follows_leave_parenthesis m level rest') hargument
    exact ⟨rfl, (List.cons.inj (List.append_cancel_left htail)).2⟩
  | @list ts hts ih =>
    intro l' rest rest' hl' _ _ h
    obtain ⟨r, hr⟩ := write_list m level ts
    have hbracket : '[' :: (r ++ rest) = l'.write m level ++ rest' := by
      rw [← h, hr, List.cons_append]
    obtain ⟨ts', hts', rfl⟩ := hl'.eq_list hbracket
    cases ts with
    | nil =>
      cases ts' with
      | nil => exact ⟨rfl, List.append_cancel_left h⟩
      | cons t' ts' => exact absurd h.symm (hts' t' List.mem_cons_self).write_cons_ne
    | cons t ts =>
      cases ts' with
      | nil => exact absurd h (hts t List.mem_cons_self).write_cons_ne
      | cons t' ts' =>
        rw [write_cons_append, write_cons_append, List.cons.injEq, List.append_cancel_left_eq] at h
        obtain ⟨rfl, htail⟩ := ih t List.mem_cons_self (level + 1) (hts' t' List.mem_cons_self)
          (follows_writeRest m level ts rest) (follows_writeRest m level ts' rest') h.2
        obtain ⟨rfl, heq⟩ := writeRest_inj
          (fun u hu => ih u (List.mem_cons_of_mem _ hu) (level + 1))
          (fun u hu => hts' u (List.mem_cons_of_mem _ hu)) htail
        exact ⟨rfl, heq⟩

/-- Two legible layouts that are written alike are the same. -/
theorem Legible.write_inj (hl : l.Legible) (hl' : l'.Legible)
    (h : l.write m level = l'.write m level) : l = l' := by
  have hnone : Follows [] := by simp [Follows]
  exact (hl.apart m level hl' hnone hnone (congrArg (· ++ []) h)).1

/-! ## What is written -/

theorem le_toNat_of_isPlain {c : Char} (hc : isPlain c) : 0x20 ≤ c.toNat := by
  have hcontrols : ∀ n < 0x20, isPlain (.ofNat n) = false := by decide
  by_contra h
  have hnot := hcontrols c.toNat (by omega)
  rw [Char.ofNat_toNat, hc] at hnot
  cases hnot

/-- Whether a character stands around the parts of calls and lists. -/
def Manner.Around (m : Manner) (c : Char) : Prop :=
  ∃ level, c ∈ m.enter level ∨ c ∈ m.between level ∨ c ∈ m.leave level

theorem mem_writeRest {c : Char}
    (hts : ∀ t ∈ ts, c ∈ t.write m (level + 1) → 0x20 ≤ c.toNat ∨ m.Around c)
    (hc : c ∈ writeRest m level ts) : 0x20 ≤ c.toNat ∨ m.Around c := by
  induction ts with
  | nil =>
    rw [writeRest, List.mem_append, List.mem_singleton] at hc
    rcases hc with hc | rfl
    · exact .inr ⟨level, .inr (.inr hc)⟩
    · exact .inl (by decide)
  | cons t ts ih =>
    rw [writeRest, List.mem_append, List.mem_append] at hc
    rcases hc with hc | hc | hc
    · exact .inr ⟨level, .inr (.inl hc)⟩
    · exact hts t List.mem_cons_self hc
    · exact ih (fun u hu => hts u (List.mem_cons_of_mem _ hu)) hc

/-- **What is written is visible**, or stands around the parts. -/
theorem Legible.mem_write {c : Char} (hl : l.Legible) (hc : c ∈ l.write m level) :
    0x20 ≤ c.toNat ∨ m.Around c := by
  induction hl generalizing level with
  | plain hx => exact .inl (le_toNat_of_isPlain (List.all_eq_true.1 hx.2 c hc))
  | quoted x =>
    rw [write, ArithLine.quoted, String.toList_ofList] at hc
    exact .inl (Quoted.le_toNat_of_mem_encode hc)
  | call hx _ ih =>
    simp only [write, List.mem_append, List.mem_cons, List.not_mem_nil, or_false] at hc
    rcases hc with hc | rfl | hc | hc | hc | rfl
    · exact .inl (le_toNat_of_isPlain (List.all_eq_true.1 hx.2 c hc))
    · exact .inl (by decide)
    · exact .inr ⟨level, .inl hc⟩
    · exact ih hc
    · exact .inr ⟨level, .inr (.inr hc)⟩
    · exact .inl (by decide)
  | @list ts _ ih =>
    cases ts with
    | nil =>
      rw [write, List.mem_cons, List.mem_singleton] at hc
      rcases hc with rfl | rfl
      · exact .inl (by decide)
      · exact .inl (by decide)
    | cons t ts =>
      rw [write, List.mem_cons, List.mem_append, List.mem_append] at hc
      rcases hc with rfl | hc | hc | hc
      · exact .inl (by decide)
      · exact .inr ⟨level, .inl hc⟩
      · exact ih t List.mem_cons_self hc
      · exact mem_writeRest (fun u hu => ih u (List.mem_cons_of_mem _ hu)) hc

/-- **A layout on one line is on one line**, and has no other control in it. -/
theorem Legible.le_toNat_of_mem_inline {c : Char} (hl : l.Legible) (hc : c ∈ l.inline.toList) :
    0x20 ≤ c.toNat := by
  rw [inline_eq_write l 0] at hc
  rcases hl.mem_write hc with h | ⟨n, haround⟩
  · exact h
  · have hseparator : c = ',' ∨ c = ' ' := by simpa [Manner.oneLine] using haround
    rcases hseparator with rfl | rfl <;> decide

/-- A layout over several lines has no control in it but their ends. -/
theorem Legible.of_mem_indented {c : Char} (hl : l.Legible)
    (hc : c ∈ (l.indented level).toList) : 0x20 ≤ c.toNat ∨ c = '\n' := by
  rw [indented_eq_write] at hc
  rcases hl.mem_write hc with h | ⟨n, haround⟩
  · exact .inl h
  · have hline : ∀ k, c ∈ Manner.newLine k → c = '\n' ∨ c = ' ' := by
      intro k hk
      rw [Manner.newLine, margin, String.toList_ofList, List.mem_cons] at hk
      exact hk.imp_right List.eq_of_mem_replicate
    have hseparator : c = ',' ∨ c = '\n' ∨ c = ' ' := by
      rcases haround with h | h | h
      · exact .inr (hline _ h)
      · exact (List.mem_cons.1 h).imp_right (hline _)
      · exact (List.mem_cons.1 h).imp_right (hline _)
    rcases hseparator with rfl | rfl | rfl
    · exact .inl (by decide)
    · exact .inr rfl
    · exact .inl (by decide)

end Layout

/-! ## Expressions -/

theorem Numeral.isPlain_ofInt (n : ℤ) : Layout.IsPlain (ofInt n).toList := by
  obtain ⟨ds, hds, hcs⟩ := isLiteral_ofInt n
  have hall : ds.all Layout.isPlain := by
    simp only [Word.isNumeral, Bool.and_eq_true, List.all_eq_true] at hds
    refine List.all_eq_true.2 fun c hc => ?_
    simp [Layout.isPlain, Char.isAlphanum, hds.2 c hc]
  rcases hcs with hcs | hcs
  · refine ⟨fun h => ?_, hcs ▸ hall⟩
    rw [← hcs, h] at hds
    cases hds
  · exact ⟨by simp [hcs], by rw [hcs, List.all_cons, hall]; rfl⟩

theorem Numeral.ofInt_inj {n n' : ℤ} (h : ofInt n = ofInt n') : n = n' := by
  have hread := congrArg (fun s => toInt? s.toList) h
  rw [toInt?_ofInt, toInt?_ofInt] at hread
  exact Option.some.inj hread

theorem quoted_inj {x y : String} (h : quoted x = quoted y) : x = y := by
  have hread : Quoted.encode x.toList ++ [] = Quoted.encode y.toList ++ [] := by
    rw [← String.ofList_inj.1 h]
  exact String.toList_inj.1 (Quoted.encode_append_inj hread).1

theorem Op.isPlain_tag (o : Op) : Layout.IsPlain o.tag.toList := by
  cases o <;> exact ⟨by decide, by decide⟩

theorem Op.tag_inj {o o' : Op} (h : o.tag = o'.tag) : o = o' := by
  cases o <;> cases o' <;> first | rfl | simp [tag] at h

namespace Expr

mutual

theorem legible_layout : ∀ e : Expr, e.layout.Legible
  | const n => .call ⟨by decide, by decide⟩ (.plain (Numeral.isPlain_ofInt _))
  | var x => .call ⟨by decide, by decide⟩ (.quoted x)
  | chain o es => .call o.isPlain_tag (.list (legible_layoutAll es))
  | error => .plain ⟨by decide, by decide⟩

theorem legible_layoutAll : ∀ es : List Expr, ∀ t ∈ layoutAll es, t.Legible
  | [] => by simp [layoutAll]
  | e :: es => by
    intro t ht
    rw [layoutAll, List.mem_cons] at ht
    rcases ht with rfl | ht
    · exact legible_layout e
    · exact legible_layoutAll es t ht

end

mutual

/-- **Different expressions have different layouts.** -/
theorem layout_inj : ∀ {e e' : Expr}, e.layout = e'.layout → e = e'
  | const n, e', h => by
    cases e' with
    | const n' =>
      simp only [layout, Layout.call.injEq, Layout.atom.injEq, true_and] at h
      rw [Int64.toInt_inj.1 (Numeral.ofInt_inj h)]
    | _ => simp [layout] at h
  | var x, e', h => by
    cases e' with
    | var x' =>
      simp only [layout, Layout.call.injEq, Layout.atom.injEq, true_and] at h
      rw [quoted_inj h]
    | _ => simp [layout] at h
  | chain o es, e', h => by
    -- no other expression has a list in its layout, whatever its tag
    cases e' with
    | chain o' es' =>
      simp only [layout, Layout.call.injEq, Layout.list.injEq] at h
      rw [Op.tag_inj h.1, layoutAll_inj h.2]
    | _ => simp [layout] at h
  | error, e', h => by
    cases e' with
    | error => rfl
    | _ => simp [layout] at h

theorem layoutAll_inj : ∀ {es es' : List Expr}, layoutAll es = layoutAll es' → es = es'
  | [], [], _ => rfl
  | e :: es, e' :: es', h => by
    simp only [layoutAll, List.cons.injEq] at h
    rw [layout_inj h.1, layoutAll_inj h.2]
  | [], _ :: _, h => by simp [layoutAll] at h
  | _ :: _, [], h => by simp [layoutAll] at h

end

end Expr

/-! ## Programs -/

/-- **A written program is written for one program only**, on one line or over several; and on one
line it is on one line. -/
theorem Program.format_eq_iff (p q : Program) :
    (p.format .inline = q.format .inline ↔ p = q) ∧
      (p.format .indented = q.format .indented ↔ p = q) ∧ '\n' ∉ (p.format .inline).toList := by
  obtain ⟨e⟩ := p
  obtain ⟨e'⟩ := q
  have hread : ∀ m : Layout.Manner, e.layout.write m 0 = e'.layout.write m 0 → e = e' := fun m h =>
    Expr.layout_inj (e.legible_layout.write_inj e'.legible_layout h)
  refine ⟨⟨fun h => ?_, fun h => h ▸ rfl⟩, ⟨fun h => ?_, fun h => h ▸ rfl⟩,
    fun hnewline => absurd (e.legible_layout.le_toNat_of_mem_inline hnewline) (by decide)⟩
  · have htext : e.layout.inline.toList = e'.layout.inline.toList := String.toList_inj.2 h
    rw [Layout.inline_eq_write _ 0, Layout.inline_eq_write _ 0] at htext
    rw [hread _ htext]
  · have htext : (e.layout.indented 0).toList = (e'.layout.indented 0).toList :=
      String.toList_inj.2 h
    rw [Layout.indented_eq_write, Layout.indented_eq_write] at htext
    rw [hread _ htext]

/-- A name that looks like the end of its node and the start of another is quoted. -/
example : (⟨.var "a\"), Var(\"b"⟩ : Program).format .inline = "Var(\"a\\\"), Var(\\\"b\")" := by
  decide +kernel

end ArithLine

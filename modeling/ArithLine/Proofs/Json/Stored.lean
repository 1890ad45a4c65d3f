import ArithLine.Expr.Format
import ArithLine.Proofs.Json.Written
import Mathlib.Data.List.Forall2

/-!
# Stored values are read back

A stored form is faithful (`Codec.Faithful`) if it is written, is read back within just the
containers that it opens, and whatever else is read within some containers has a stored form that
needs no more of them. Then reading undoes writing (`Codec.RoundTrips`), for any value that does not
nest too deep and for any that was itself read (`Codec.Faithful.roundTrips`).

The stored forms of rules, spans, expressions, programs and trees are all faithful
(`stored_roundTrips`). For expressions and trees both directions go by induction on the containers
that may still be opened: a reader passes fewer of them on to the parts of what it reads, and just
as many fewer as the stored form opens around those parts (`Expr.depth_toJson_chain_le`,
`Tree.depth_toJson_node_le`).
-/

namespace ArithLine

theorem mapM_eq_some_iff {α β : Type} {f : α → Option β} {as : List α} {bs : List β} :
    as.mapM f = some bs ↔ List.Forall₂ (fun a b => f a = some b) as bs := by
  induction as generalizing bs with
  | nil => simp [eq_comm]
  | cons a as ih =>
    rw [List.mapM_cons, List.forall₂_cons_left_iff]
    cases hf : f a with
    | none => simp
    | some b =>
      simp only [Option.bind_eq_bind, Option.bind_some, Option.bind_eq_some_iff, Option.pure_def,
        Option.some.injEq, ← ih]
      constructor
      · rintro ⟨bs, hbs, rfl⟩
        exact ⟨b, bs, rfl, hbs, rfl⟩
      · rintro ⟨_, bs, rfl, hbs, rfl⟩
        exact ⟨bs, hbs, rfl⟩

/-- What is read of some items was read of one of them. -/
theorem exists_of_mem_mapM {α β : Type} {f : α → Option β} {as : List α} {bs : List β}
    (h : as.mapM f = some bs) {b : β} (hb : b ∈ bs) : ∃ a ∈ as, f a = some b := by
  induction mapM_eq_some_iff.1 h with
  | nil => cases hb
  | cons hab htail ih =>
    rcases List.mem_cons.1 hb with rfl | hb
    · exact ⟨_, List.mem_cons_self, hab⟩
    · obtain ⟨a, ha, hfa⟩ := ih (mapM_eq_some_iff.2 htail) hb
      exact ⟨a, List.mem_cons_of_mem _ ha, hfa⟩

namespace Json

/-! ## Depth -/

mutual

/-- The number of containers that a value opens inside each other. -/
def depth : Json → ℕ
  | array vs => depthItems vs + 1
  | object fs => depthFields fs + 1
  | _ => 0

/-- The greatest depth among some items. -/
def depthItems : List Json → ℕ
  | [] => 0
  | v :: vs => max v.depth (depthItems vs)

/-- The greatest depth among some fields. -/
def depthFields : List (Option String × Json) → ℕ
  | [] => 0
  | (_, v) :: fs => max v.depth (depthFields fs)

end

theorem depthItems_le_iff {vs : List Json} {d : ℕ} :
    depthItems vs ≤ d ↔ ∀ v ∈ vs, v.depth ≤ d := by
  induction vs with
  | nil => simp [depthItems]
  | cons v vs ih => simp [depthItems, ih]

theorem depthFields_named (fs : List (String × Json)) :
    depthFields (named fs) = depthItems (fs.map (·.2)) := by
  induction fs with
  | nil => rfl
  | cons f fs ih => simp only [named, List.map_cons, depthFields, depthItems] at ih ⊢; rw [ih]

@[simp] theorem depth_int (n : ℤ) : (int n).depth = 0 := rfl

@[simp] theorem depth_text (s : String) : (text s).depth = 0 := rfl

@[simp] theorem depth_array (vs : List Json) : (array vs).depth = depthItems vs + 1 := rfl

@[simp] theorem depth_record (fs : List (String × Json)) :
    (record fs).depth = depthItems (fs.map (·.2)) + 1 := by
  rw [record, depth, depthFields_named]

@[simp] theorem depth_tagged (k : String) (v : Json) : (tagged k v).depth = v.depth + 1 := by
  simp [tagged, depthItems]

theorem IsWritten.tagged {v : Json} (h : v.IsWritten) (k : String) : (tagged k v).IsWritten :=
  .record (by simpa using h)

end Json

namespace Codec

/-! ## Parts -/

@[simp] theorem int?_int (n : ℤ) : int? (.int n) = some n := by
  rw [Json.int, int?, if_neg (Numeral.ofInt_ne_minus_zero n), Numeral.toInt?_ofInt]

@[simp] theorem word?_int (n : Int64) : word? (.int n.toInt) = some n := by
  rw [word?, int?_int, Option.bind_some, Numeral.toWord?_toInt]

theorem nat?_int {n : ℕ} (h : n < UInt64.size) : nat? (.int n) = some n := by
  rw [nat?, int?_int, Option.bind_some, if_pos ⟨Int.natCast_nonneg n, h⟩, Int.toNat_natCast]

theorem lt_of_nat? {v : Json} {n : ℕ} (h : nat? v = some n) : n < UInt64.size := by
  obtain ⟨m, -, hm⟩ := Option.bind_eq_some_iff.1 h
  split at hm
  case isTrue hfits => exact Option.some.inj hm ▸ hfits.2
  case isFalse => cases hm

@[simp] theorem tag?_text (k : String) : tag? (.text k) = some (k, none) := rfl

@[simp] theorem tag?_tagged (k : String) (v : Json) : tag? (.tagged k v) = some (k, some v) := rfl

theorem lookup_named_eq_nil {fs : List (String × Json)} {k : String}
    (h : k ∉ fs.map (·.1)) : lookup k (Json.named fs) = [] := by
  rw [lookup, List.map_eq_nil_iff, List.filter_eq_nil_iff]
  intro f hf
  obtain ⟨g, hg, rfl⟩ := List.mem_map.1 hf
  have hne : g.1 ≠ k := fun hgk => h (hgk ▸ List.mem_map_of_mem hg)
  simpa using hne

theorem lookup_named {fs : List (String × Json)} (hfs : (fs.map (·.1)).Nodup)
    {f : String × Json} (hf : f ∈ fs) : lookup f.1 (Json.named fs) = [f.2] := by
  induction fs with
  | nil => cases hf
  | cons g fs ih =>
    rw [List.map_cons, List.nodup_cons] at hfs
    rcases List.mem_cons.1 hf with rfl | hf
    · have hrest := lookup_named_eq_nil hfs.1
      simp only [lookup, Json.named, List.map_cons, beq_self_eq_true, List.filter_cons_of_pos]
        at hrest ⊢
      rw [hrest]
    · have hne : (some g.1 == some f.1) = false := by
        refine beq_false_of_ne fun hgf => hfs.1 ?_
        rw [Option.some.inj hgf]
        exact List.mem_map_of_mem hf
      have hrest := ih hfs.2 hf
      rw [lookup, Json.named, List.map_cons, List.filter_cons_of_neg (by simp [hne])]
      exact hrest

/-- **The fields of a record are found by their names**, which are all different. -/
theorem fields?_record (fs : List (String × Json)) (h : (fs.map (·.1)).Nodup) :
    fields? (fs.map (·.1)) (.record fs) = some (fs.map (·.2)) := by
  have hkeys : (Json.named fs).all (·.1.isSome) := by simp [Json.named]
  rw [Json.record, fields?, if_pos hkeys, List.mapM_map, mapM_eq_some_iff,
    List.forall₂_map_right_iff, List.forall₂_same]
  intro f hf
  rw [Function.comp_apply, field?, lookup_named h hf]

/-! ## Faithful stored forms -/

/-- **A stored form that is faithful** to the values that fit. -/
structure Faithful {α : Type} (toJson : α → Json) (decode : ℕ → Json → Option α)
    (fits : α → Prop) : Prop where
  isWritten : ∀ a, (toJson a).IsWritten
  /-- A value is read back in as many containers as its stored form opens. -/
  decode_toJson : ∀ d a, fits a → (toJson a).depth ≤ d → decode d (toJson a) = some a
  fits_of_decode : ∀ d v a, decode d v = some a → fits a
  /-- What is read opens no more containers when it is stored. -/
  depth_le : ∀ d v a, decode d v = some a → (toJson a).depth ≤ d

/-- **Reading undoes writing.** -/
structure RoundTrips {α : Type} (toJson : α → Json) (ofJson? : String → Option α)
    (fits : α → Prop) : Prop where
  /-- A value that does not nest too deep is read back from its text. -/
  read_write : ∀ a, fits a → (toJson a).depth ≤ maxDepth → ofJson? (toJson a).render = some a
  /-- So is what was read from any text, in whatever form it stood there. -/
  read_again : ∀ s a, ofJson? s = some a → ofJson? (toJson a).render = some a
  /-- A text that was read and written once stays the same when it is read and written again. -/
  write_again : ∀ s t, (ofJson? s).map (fun a => (toJson a).render) = some t →
    (ofJson? t).map (fun a => (toJson a).render) = some t

theorem Faithful.roundTrips {α : Type} {toJson : α → Json} {decode : ℕ → Json → Option α}
    {fits : α → Prop} (h : Faithful toJson decode fits) :
    RoundTrips toJson (read? decode) fits := by
  have read_write : ∀ a, fits a → (toJson a).depth ≤ maxDepth →
      read? decode (toJson a).render = some a := by
    intro a hfits hdepth
    rw [read?, Json.ofText?_render (h.isWritten a), Option.bind_some]
    exact h.decode_toJson _ a hfits hdepth
  have read_again : ∀ s a, read? decode s = some a → read? decode (toJson a).render = some a := by
    intro s a hs
    obtain ⟨v, -, hv⟩ := Option.bind_eq_some_iff.1 hs
    exact read_write a (h.fits_of_decode _ v a hv) (h.depth_le _ v a hv)
  refine ⟨read_write, read_again, fun s t hst => ?_⟩
  obtain ⟨a, hs, rfl⟩ := Option.map_eq_some_iff.1 hst
  rw [read_again s a hs, Option.map_some]

end Codec

/-! ## Rules and spans -/

/-- Whether both ends of a span are numbers of 64 bits. -/
def Span.Fits (s : Span) : Prop := s.start < UInt64.size ∧ s.stop < UInt64.size

theorem Rule.faithful : Codec.Faithful Rule.toJson Rule.ofJsonWithin? fun _ => True where
  isWritten r := .text r.name
  decode_toJson d r _ _ := by
    rw [Rule.toJson, Rule.ofJsonWithin?, Codec.tag?_text]
    exact Rule.ofName?_name r
  fits_of_decode _ _ _ _ := trivial
  depth_le _ _ r _ := by simp [Rule.toJson]

namespace Span

@[simp] theorem depth_toJson (s : Span) : s.toJson.depth = 1 := by
  simp [toJson, Json.depthItems]

theorem isWritten_toJson (s : Span) : s.toJson.IsWritten := by
  refine .record fun f hf => ?_
  simp only [List.mem_cons, List.not_mem_nil, or_false] at hf
  rcases hf with rfl | rfl <;> exact .int _

theorem ofJsonWithin?_toJson {s : Span} (hs : s.Fits) {d : ℕ} (hd : 0 < d) :
    ofJsonWithin? d s.toJson = some s := by
  have hfields : Codec.fields? ["start", "end"] s.toJson = some [.int s.start, .int s.stop] :=
    Codec.fields?_record [("start", .int s.start), ("end", .int s.stop)] (by simp)
  rw [ofJsonWithin?, if_pos hd, hfields]
  simp only [Codec.nat?_int hs.1, Codec.nat?_int hs.2]
  rfl

theorem ofJsonWithin?_eq_some {d : ℕ} {v : Json} {s : Span} (h : ofJsonWithin? d v = some s) :
    0 < d ∧ s.Fits := by
  rw [ofJsonWithin?] at h
  split at h
  case isFalse => cases h
  case isTrue hd =>
    split at h
    case h_2 => cases h
    case h_1 a b _ =>
      obtain ⟨m, hm, h⟩ := Option.bind_eq_some_iff.1 h
      obtain ⟨n, hn, h⟩ := Option.bind_eq_some_iff.1 h
      cases h
      exact ⟨hd, Codec.lt_of_nat? hm, Codec.lt_of_nat? hn⟩

theorem faithful : Codec.Faithful Span.toJson ofJsonWithin? Span.Fits where
  isWritten := isWritten_toJson
  decode_toJson d s hs hd := ofJsonWithin?_toJson hs (by rwa [depth_toJson] at hd)
  fits_of_decode _ _ _ h := (ofJsonWithin?_eq_some h).2
  depth_le _ _ s h := (depth_toJson s).trans_le (ofJsonWithin?_eq_some h).1

end Span

/-! ## Expressions and programs -/

namespace Expr

theorem toJsonAll_eq_map (es : List Expr) : toJsonAll es = es.map toJson := by
  induction es with
  | nil => rfl
  | cons e es ih => rw [toJsonAll, ih, List.map_cons]

mutual

theorem isWritten_toJson : ∀ e : Expr, e.toJson.IsWritten
  | .const n => (Json.IsWritten.int n.toInt).tagged "Const"
  | .var x => (Json.IsWritten.text x).tagged "Var"
  | .chain o es => (Json.IsWritten.array (isWritten_toJsonAll es)).tagged o.tag
  | .error => .text "Error"

theorem isWritten_toJsonAll : ∀ es : List Expr, ∀ v ∈ toJsonAll es, v.IsWritten
  | [], _, h => absurd h List.not_mem_nil
  | e :: es, v, h => by
    rcases List.mem_cons.1 h with rfl | h
    · exact isWritten_toJson e
    · exact isWritten_toJsonAll es v h

end

/-- A chain stores its operands two containers further in. -/
theorem depth_toJson_chain_le {o : Op} {es : List Expr} {d : ℕ} :
    (chain o es).toJson.depth ≤ d + 2 ↔ ∀ e ∈ es, e.toJson.depth ≤ d := by
  simp [toJson, toJsonAll_eq_map, Json.depthItems_le_iff]

theorem ofJsonWithin?_chain (o : Op) (vs : List Json) (d : ℕ) :
    ofJsonWithin? (d + 2) (.tagged o.tag (.array vs)) =
      (vs.mapM (ofJsonWithin? d)).map (chain o) := by
  cases o <;> rw [ofJsonWithin?.eq_def] <;> simp [Op.tag, Op.all, Option.map_eq_bind]

/-- What is read as an expression opens no more containers when it is stored. -/
theorem depth_le_of_ofJsonWithin? {d : ℕ} {v : Json} {e : Expr} (h : ofJsonWithin? d v = some e) :
    e.toJson.depth ≤ d := by
  induction d using Nat.strong_induction_on generalizing v e with
  | _ d ih =>
    rw [ofJsonWithin?.eq_def] at h
    split at h
    case h_1 | h_2 =>
      cases h
      exact Nat.zero_le _
    case h_3 =>
      obtain ⟨n, -, rfl⟩ := Option.map_eq_some_iff.1 h
      simp [toJson]
    case h_4 =>
      obtain ⟨x, -, rfl⟩ := Option.map_eq_some_iff.1 h
      simp [toJson]
    case h_5 vs d _ _ _ =>
      -- the operands were read in two containers less, which the tag and the array take up
      obtain ⟨o, -, h⟩ := Option.bind_eq_some_iff.1 h
      obtain ⟨es, hes, h⟩ := Option.bind_eq_some_iff.1 h
      cases h
      refine depth_toJson_chain_le.2 fun e he => ?_
      obtain ⟨v', -, hv'⟩ := exists_of_mem_mapM hes he
      exact ih d (by omega) hv'
    case h_6 => cases h

theorem ofJsonWithin?_toJson {d : ℕ} {e : Expr} (h : e.toJson.depth ≤ d) :
    ofJsonWithin? d e.toJson = some e := by
  induction d using Nat.strong_induction_on generalizing e with
  | _ d ih =>
    cases e with
    | error =>
      rw [ofJsonWithin?.eq_def]
      simp [toJson]
    | const n =>
      obtain ⟨d, rfl⟩ : ∃ d', d = d' + 1 := Nat.exists_eq_add_of_le' (by simpa [toJson] using h)
      simp [toJson, ofJsonWithin?]
    | var x =>
      obtain ⟨d, rfl⟩ : ∃ d', d = d' + 1 := Nat.exists_eq_add_of_le' (by simpa [toJson] using h)
      simp [toJson, ofJsonWithin?, Codec.text?, Json.text]
    | chain o es =>
      obtain ⟨d, rfl⟩ : ∃ d', d = d' + 2 :=
        Nat.exists_eq_add_of_le' (by simp [toJson] at h; omega)
      have hes : (toJsonAll es).mapM (ofJsonWithin? d) = some es := by
        rw [toJsonAll_eq_map, mapM_eq_some_iff, List.forall₂_map_left_iff, List.forall₂_same]
        exact fun e he => ih d (by omega) (depth_toJson_chain_le.1 h e he)
      rw [toJson, ofJsonWithin?_chain, hes, Option.map_some]

theorem faithful : Codec.Faithful toJson ofJsonWithin? fun _ => True where
  isWritten := isWritten_toJson
  decode_toJson _ _ _ h := ofJsonWithin?_toJson h
  fits_of_decode _ _ _ _ := trivial
  depth_le _ _ _ h := depth_le_of_ofJsonWithin? h

end Expr

namespace Program

theorem depth_toJson (p : Program) : p.toJson.depth = p.body.toJson.depth + 1 := by
  simp [toJson, Json.depthItems]

theorem ofJsonWithin?_toJson {d : ℕ} {p : Program} (h : p.toJson.depth ≤ d) :
    ofJsonWithin? d p.toJson = some p := by
  rw [depth_toJson] at h
  obtain ⟨d, rfl⟩ : ∃ d', d = d' + 1 := Nat.exists_eq_add_of_le' (by omega)
  have hfields : Codec.fields? ["exp"] p.toJson = some [p.body.toJson] :=
    Codec.fields?_record [("exp", p.body.toJson)] (by simp)
  rw [ofJsonWithin?.eq_def, hfields]
  simp only [Expr.ofJsonWithin?_toJson (Nat.le_of_succ_le_succ h)]
  rfl

theorem depth_le_of_ofJsonWithin? {d : ℕ} {v : Json} {p : Program}
    (h : ofJsonWithin? d v = some p) : p.toJson.depth ≤ d := by
  rw [ofJsonWithin?.eq_def] at h
  split at h
  case h_1 =>
    obtain ⟨e, he, rfl⟩ := Option.map_eq_some_iff.1 h
    rw [depth_toJson]
    exact Nat.succ_le_succ (Expr.depth_le_of_ofJsonWithin? he)
  case h_2 => cases h

theorem faithful : Codec.Faithful toJson ofJsonWithin? fun _ => True where
  isWritten p := .record (by simpa using p.body.isWritten_toJson)
  decode_toJson _ _ _ h := ofJsonWithin?_toJson h
  fits_of_decode _ _ _ _ := trivial
  depth_le _ _ _ h := depth_le_of_ofJsonWithin? h

end Program

/-! ## Trees -/

namespace Tree

/-- Whether every span of a tree fits. -/
inductive Fits : Tree → Prop
  | node {r : Rule} {ts : List Tree} {s : Span} (hts : ∀ t ∈ ts, Fits t) (hs : s.Fits) :
    Fits (node r ts s)
  | token {x : String} {s : Span} (hs : s.Fits) : Fits (token x s)
  | bad {x : String} {s : Span} (hs : s.Fits) : Fits (bad x s)

theorem toJsonAll_eq_map (ts : List Tree) : toJsonAll ts = ts.map toJson := by
  induction ts with
  | nil => rfl
  | cons t ts ih => rw [toJsonAll, ih, List.map_cons]

mutual

theorem isWritten_toJson : ∀ t : Tree, t.toJson.IsWritten
  | .node r ts s => by
    refine Json.IsWritten.tagged (.record ?_) "Rule"
    simpa [or_imp, forall_and] using
      ⟨Rule.faithful.isWritten r, .array (isWritten_toJsonAll ts), s.isWritten_toJson⟩
  | .token x s => by
    refine Json.IsWritten.tagged (.record ?_) "Terminal"
    simpa [or_imp, forall_and] using ⟨.text x, s.isWritten_toJson⟩
  | .bad x s => by
    refine Json.IsWritten.tagged (.record ?_) "Error"
    simpa [or_imp, forall_and] using ⟨.text x, s.isWritten_toJson⟩

theorem isWritten_toJsonAll : ∀ ts : List Tree, ∀ v ∈ toJsonAll ts, v.IsWritten
  | [], _, h => absurd h List.not_mem_nil
  | t :: ts, v, h => by
    rcases List.mem_cons.1 h with rfl | h
    · exact isWritten_toJson t
    · exact isWritten_toJsonAll ts v h

end

/-- A node stores its children three containers further in, and its span two. -/
theorem depth_toJson_node_le {r : Rule} {ts : List Tree} {s : Span} {d : ℕ} :
    (node r ts s).toJson.depth ≤ d + 3 ↔ ∀ t ∈ ts, t.toJson.depth ≤ d := by
  simp [toJson, toJsonAll_eq_map, Json.depthItems, Rule.toJson, Json.depthItems_le_iff]

/-- A leaf's span is stored two containers further in. -/
theorem depth_toJson_leaf (x : String) (s : Span) :
    (token x s).toJson.depth = 3 ∧ (bad x s).toJson.depth = 3 := by
  simp [toJson, Json.depthItems]

theorem leafOfJson?_record (x : String) {s : Span} (hs : s.Fits) {d : ℕ} (hd : 0 < d) :
    leafOfJson? d (.record [("text", .text x), ("span", s.toJson)]) = some (x, s) := by
  have hfields : Codec.fields? ["text", "span"]
      (.record [("text", .text x), ("span", s.toJson)]) = some [.text x, s.toJson] :=
    Codec.fields?_record [("text", .text x), ("span", s.toJson)] (by simp)
  rw [leafOfJson?, hfields]
  simp only [Span.ofJsonWithin?_toJson hs hd]
  rfl

theorem leafOfJson?_eq_some {d : ℕ} {v : Json} {l : String × Span}
    (h : leafOfJson? d v = some l) : 0 < d ∧ l.2.Fits := by
  rw [leafOfJson?] at h
  split at h
  case h_1 =>
    obtain ⟨x, -, h⟩ := Option.bind_eq_some_iff.1 h
    obtain ⟨s, hs, h⟩ := Option.bind_eq_some_iff.1 h
    cases h
    exact Span.ofJsonWithin?_eq_some hs
  case h_2 => cases h

theorem ofJsonWithin?_node (r : Rule) (vs : List Json) {s : Span} (hs : s.Fits) (d : ℕ) :
    ofJsonWithin? (d + 3) (.tagged "Rule" (.record
      [("rule", r.toJson), ("children", .array vs), ("span", s.toJson)])) =
        (vs.mapM (ofJsonWithin? d)).map fun ts => node r ts s := by
  have hfields : Codec.fields? ["rule", "children", "span"]
      (.record [("rule", r.toJson), ("children", .array vs), ("span", s.toJson)]) =
        some [r.toJson, .array vs, s.toJson] :=
    Codec.fields?_record [("rule", r.toJson), ("children", .array vs), ("span", s.toJson)] (by simp)
  have hrule : Rule.ofJsonWithin? (d + 1) r.toJson = some r :=
    Rule.faithful.decode_toJson _ r trivial (Nat.zero_le _)
  rw [ofJsonWithin?.eq_def]
  simp [hfields, hrule, Span.ofJsonWithin?_toJson hs d.succ_pos, Option.map_eq_bind]

theorem ofJsonWithin?_toJson {d : ℕ} {t : Tree} (ht : t.Fits) (h : t.toJson.depth ≤ d) :
    ofJsonWithin? d t.toJson = some t := by
  induction d using Nat.strong_induction_on generalizing t with
  | _ d ih =>
    cases ht with
    | token hs =>
      rw [(depth_toJson_leaf _ _).1] at h
      obtain ⟨d, rfl⟩ : ∃ d', d = d' + 3 := Nat.exists_eq_add_of_le' h
      rw [ofJsonWithin?.eq_def]
      simp [toJson, leafOfJson?_record _ hs d.succ_pos]
    | bad hs =>
      rw [(depth_toJson_leaf _ _).2] at h
      obtain ⟨d, rfl⟩ : ∃ d', d = d' + 3 := Nat.exists_eq_add_of_le' h
      rw [ofJsonWithin?.eq_def]
      simp [toJson, leafOfJson?_record _ hs d.succ_pos]
    | @node r ts s hts hs =>
      obtain ⟨d, rfl⟩ : ∃ d', d = d' + 3 :=
        Nat.exists_eq_add_of_le' (by simp [toJson, Json.depthItems] at h; omega)
      have hchildren : (toJsonAll ts).mapM (ofJsonWithin? d) = some ts := by
        rw [toJsonAll_eq_map, mapM_eq_some_iff, List.forall₂_map_left_iff, List.forall₂_same]
        exact fun t ht => ih d (by omega) (hts t ht) (depth_toJson_node_le.1 h t ht)
      rw [toJson, ofJsonWithin?_node r _ hs, hchildren, Option.map_some]

/-- What is read as a tree fits, and opens no more containers when it is stored. -/
theorem fits_and_depth_le {d : ℕ} {v : Json} {t : Tree} (h : ofJsonWithin? d v = some t) :
    t.Fits ∧ t.toJson.depth ≤ d := by
  induction d using Nat.strong_induction_on generalizing v t with
  | _ d ih =>
    rw [ofJsonWithin?.eq_def] at h
    split at h
    case h_1 d _ =>
      obtain ⟨⟨x, s⟩, hl, rfl⟩ := Option.map_eq_some_iff.1 h
      have hs := leafOfJson?_eq_some hl
      refine ⟨.token hs.2, ?_⟩
      rw [(depth_toJson_leaf x s).1]
      exact Nat.add_le_add_right hs.1 2
    case h_2 d _ =>
      obtain ⟨⟨x, s⟩, hl, rfl⟩ := Option.map_eq_some_iff.1 h
      have hs := leafOfJson?_eq_some hl
      refine ⟨.bad hs.2, ?_⟩
      rw [(depth_toJson_leaf x s).2]
      exact Nat.add_le_add_right hs.1 2
    case h_3 d _ =>
      split at h
      case h_1 =>
        obtain ⟨r, -, h⟩ := Option.bind_eq_some_iff.1 h
        obtain ⟨ts, hts, h⟩ := Option.bind_eq_some_iff.1 h
        obtain ⟨s, hs, h⟩ := Option.bind_eq_some_iff.1 h
        cases h
        have hchildren : ∀ t ∈ ts, t.Fits ∧ t.toJson.depth ≤ d := by
          intro t ht
          obtain ⟨v', -, hv'⟩ := exists_of_mem_mapM hts ht
          exact ih d (by omega) hv'
        exact ⟨.node (fun t ht => (hchildren t ht).1) (Span.ofJsonWithin?_eq_some hs).2,
          depth_toJson_node_le.2 fun t ht => (hchildren t ht).2⟩
      case h_2 => cases h
    case h_4 => cases h

theorem faithful : Codec.Faithful toJson ofJsonWithin? Fits where
  isWritten := isWritten_toJson
  decode_toJson _ _ ht h := ofJsonWithin?_toJson ht h
  fits_of_decode _ _ _ h := (fits_and_depth_le h).1
  depth_le _ _ _ h := (fits_and_depth_le h).2

end Tree

/-- A program that is shown as JSON can be read back from what is shown. -/
theorem Program.ofJson?_format {p : Program} (h : p.toJson.depth ≤ Codec.maxDepth) :
    ofJson? (p.format .json) = some p :=
  Program.faithful.roundTrips.read_write p trivial h

/-- **Reading stored values undoes writing them**: every rule, span, expression, program and tree
that does not nest too deep is read back from its text, and every text that is read as one of them
is read as the same value, from the same text, once it has been written anew. -/
theorem stored_roundTrips :
    Codec.RoundTrips Rule.toJson Rule.ofJson? (fun _ => True) ∧
    Codec.RoundTrips Span.toJson Span.ofJson? Span.Fits ∧
    Codec.RoundTrips Expr.toJson Expr.ofJson? (fun _ => True) ∧
    Codec.RoundTrips Program.toJson Program.ofJson? (fun _ => True) ∧
    Codec.RoundTrips Tree.toJson Tree.ofJson? Tree.Fits :=
  ⟨Rule.faithful.roundTrips, Span.faithful.roundTrips, Expr.faithful.roundTrips,
    Program.faithful.roundTrips, Tree.faithful.roundTrips⟩

end ArithLine

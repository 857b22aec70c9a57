/-
The two layouts of a parameter table.

A parameter with indices is a finite partial function from tuples of elements to values. A mapping
holds it in one of two layouts: keyed by the tuples, or nested with one level for each index. A
lookup tries one layout after the other, so each is also searched by the rules of the other one, and
still a source gives the same answers for both:

* `ParameterTable`, `ParameterTable.below` - a finite partial function, and what it is below a first
  element;
* `ParameterTable.flat`, `ParameterTable.Nests` - the two layouts;
* `ParameterTable.nests_nested` - there is a nested one for each function;
* `ParameterTable.lookup_flat`, `ParameterTable.walk_of_nests` - what is found in them, the second
  by induction on the levels;
* `ParameterTable.layouts_interchangeable` - the answers of a source, for all indices that are not
  too few.
-/
import Equilibrium.Parameters
import Mathlib.Data.List.Dedup

namespace Equilibrium

/-! ### Finding entries -/

theorem Key.equals_text_iff {s : String} {k : Key} :
    (Key.text s).equals k = true ↔ k = .text s := by
  cases k with
  | text t => rw [equals_text, beq_iff_eq, text.injEq, eq_comm]
  | _ => exact ⟨nofun, nofun⟩

theorem Key.equals_tuple_iff {names : List String} {k : Key} :
    (Key.tuple names).equals k = true ↔ k = .tuple names := by
  cases k with
  | tuple other => rw [equals_tuple, beq_iff_eq, tuple.injEq, eq_comm]
  | _ => exact ⟨nofun, nofun⟩

namespace Value

variable {key : Key} {entries : List (Key × Value)}

theorem find_eq_none (h : ∀ e ∈ entries, key.equals e.1 = false) :
    find key entries = Option.none := by
  induction entries with
  | nil => rfl
  | cons e rest ih =>
    obtain ⟨he, hrest⟩ := List.forall_mem_cons.mp h
    rw [find_cons, he, if_neg Bool.false_ne_true, ih hrest]

/-- A text is set in a mapping, and all other texts stay. -/
theorem find_text_put (name other : String) (v : Value) (entries : List (Key × Value)) :
    find (.text other) (put (.text name) v entries) =
      if other = name then some v else find (.text other) entries := by
  have hself : (Key.text other).equals (.text name) = true ↔ other = name := by
    rw [Key.equals_text_iff, Key.text.injEq, eq_comm]
  induction entries with
  | nil =>
    rw [put, find_cons, find_nil]
    simp only [hself]
  | cons e rest ih =>
    obtain ⟨k, w⟩ := e
    rw [put]
    by_cases hk : (Key.text name).equals k = true
    · -- the key is the text itself
      obtain rfl := Key.equals_text_iff.mp hk
      rw [if_pos hk, find_cons, find_cons]
      simp only [hself]
      split <;> rfl
    · rw [if_neg hk, find_cons, find_cons, ih]
      by_cases hother : (Key.text other).equals k = true
      · obtain rfl := Key.equals_text_iff.mp hother
        have hne : other ≠ name := by
          rintro rfl
          exact hk hother
        rw [if_pos hother, if_pos hother, if_neg hne]
      · rw [if_neg hother, if_neg hother]

/-- What is found under a text in the mapping of a table. -/
theorem find_text_table (i : String) (t : Table Value) :
    find (.text i) (t.toList.map fun e => (.text e.1, e.2)) = t.get? i := by
  obtain ⟨entries⟩ := t
  induction entries with
  | nil => rfl
  | cons e rest ih =>
    have hget : (⟨e :: rest⟩ : Table Value).get? i =
        if i = e.1 then some e.2 else (⟨rest⟩ : Table Value).get? i := rfl
    rw [hget, ← ih]
    show (if (i == e.1) = true then some e.2 else _) = _
    simp only [beq_iff_eq]
    rfl

/-- No tuple stands in the mapping of a table. -/
theorem find_tuple_table (names : List String) (t : Table Value) :
    find (.tuple names) (t.toList.map fun e => (.text e.1, e.2)) = Option.none := by
  refine find_eq_none fun e he => ?_
  obtain ⟨p, -, rfl⟩ := List.mem_map.mp he
  rfl

end Value

/-! ### Parameter tables -/

/-- A finite partial function from tuples of `n` elements to values that are no mappings. -/
structure ParameterTable (n : Nat) where
  rows : List (List String × Value)
  distinct : (rows.map Prod.fst).Nodup
  arity : ∀ r ∈ rows, r.1.length = n
  plain : ∀ r ∈ rows, ∀ entries, r.2 ≠ .map entries

namespace ParameterTable

variable {n : Nat} {v w : Value} {indices rest : List String} {i : String}

/-- A row below a first element: the row without it, if the row begins with it. -/
def rowBelow (i : String) : List String × Value → Option (List String × Value)
  | (j :: rest, v) => if j = i then some (rest, v) else none
  | ([], _) => none

theorem rowBelow_eq_some {r : List String × Value} :
    rowBelow i r = some (rest, v) ↔ r = (i :: rest, v) := by
  obtain ⟨_ | ⟨j, tail⟩, w⟩ := r
  · simp [rowBelow]
  · by_cases h : j = i <;> simp [rowBelow, h]

theorem mem_filterMap_rowBelow {rows : List (List String × Value)} :
    (rest, v) ∈ rows.filterMap (rowBelow i) ↔ (i :: rest, v) ∈ rows := by
  simp only [List.mem_filterMap, rowBelow_eq_some, exists_eq_right]

/-- What a function is below a first element. -/
def below (p : ParameterTable (n + 1)) (i : String) : ParameterTable n where
  rows := p.rows.filterMap (rowBelow i)
  distinct := by
    refine List.pairwise_map.mpr (List.Pairwise.filterMap _ ?_ (List.pairwise_map.mp p.distinct))
    rintro r r' hne ⟨rest, v⟩ hr ⟨rest', v'⟩ hr' (rfl : rest = rest')
    rw [rowBelow_eq_some.mp hr, rowBelow_eq_some.mp hr'] at hne
    exact hne rfl
  arity := by
    rintro ⟨rest, v⟩ hmem
    exact Nat.succ.inj (p.arity _ (mem_filterMap_rowBelow.mp hmem))
  plain := by
    rintro ⟨rest, v⟩ hmem
    exact p.plain (i :: rest, v) (mem_filterMap_rowBelow.mp hmem)

theorem mem_below {p : ParameterTable (n + 1)} :
    (rest, v) ∈ (p.below i).rows ↔ (i :: rest, v) ∈ p.rows := mem_filterMap_rowBelow

/-- A function has one value at a tuple. -/
theorem value_unique (p : ParameterTable n) (hv : (indices, v) ∈ p.rows)
    (hw : (indices, w) ∈ p.rows) : v = w := by
  have hinj := List.inj_on_of_nodup_map p.distinct hv hw rfl
  exact (Prod.mk.inj hinj).2

/-! ### The layouts -/

/-- The mapping that is keyed by tuples. -/
def flat (p : ParameterTable n) : List (Key × Value) := p.rows.map fun r => (.tuple r.1, r.2)

/-- A value is a nested layout: a mapping with a level for each index. Below a first element there
is a nested layout in turn, or no entry if the function has no tuple there, so no mapping inside is
empty. -/
def Nests : (n : Nat) → ParameterTable n → Value → Prop
  | 0, p, v => ([], v) ∈ p.rows
  | n + 1, p, v => ∃ t : Table Value, v = .ofTable t ∧ t.keys.Nodup ∧
      ∀ i, (t.get? i = none ↔ (p.below i).rows = []) ∧
        ∀ w, t.get? i = some w → Nests n (p.below i) w

/-- The first elements of the tuples, each once. -/
def heads (p : ParameterTable n) : List String := (p.rows.filterMap fun r => r.1.head?).dedup

/-- A nested layout, with the first elements in the order of the rows. -/
def nested : (n : Nat) → ParameterTable n → Value
  | 0, p => (p.rows.head?.map Prod.snd).getD .none
  | n + 1, p => .ofTable ⟨p.heads.map fun i => (i, nested n (p.below i))⟩

theorem mem_heads {p : ParameterTable (n + 1)} : i ∈ p.heads ↔ (p.below i).rows ≠ [] := by
  rw [heads, List.mem_dedup, List.mem_filterMap]
  constructor
  · rintro ⟨⟨_ | ⟨j, rest⟩, v⟩, hmem, hhead⟩
    · cases hhead
    · cases hhead
      exact List.ne_nil_of_mem (mem_below.mpr hmem)
  · intro hne
    obtain ⟨⟨rest, v⟩, hmem⟩ := List.exists_mem_of_ne_nil _ hne
    exact ⟨_, mem_below.mp hmem, rfl⟩

theorem get?_of_names (names : List String) (f : String → Value) (i : String) :
    (⟨names.map fun j => (j, f j)⟩ : Table Value).get? i =
      if i ∈ names then some (f i) else none := by
  induction names with
  | nil => rfl
  | cons j rest ih =>
    show (if i = j then some (f j) else (⟨rest.map fun j => (j, f j)⟩ : Table Value).get? i) = _
    by_cases h : i = j
    · simp [h]
    · simp [h, ih]

/-- Every function has a nested layout; without indices it must have a value to begin with. -/
theorem nests_nested (n : Nat) (p : ParameterTable n) (h : n = 0 → p.rows ≠ []) :
    Nests n p (nested n p) := by
  induction n with
  | zero =>
    obtain ⟨r, rest, hrows⟩ := List.exists_cons_of_ne_nil (h rfl)
    have hmem : r ∈ p.rows := by
      rw [hrows]
      exact List.mem_cons_self
    obtain ⟨names, v⟩ := r
    obtain rfl : names = [] := List.length_eq_zero_iff.mp (p.arity _ hmem)
    rw [nested, hrows]
    exact hmem
  | succ n ih =>
    refine ⟨_, rfl, ?_, fun i => ?_⟩
    · show (List.map Prod.fst (p.heads.map fun i => (i, nested n (p.below i)))).Nodup
      rw [List.map_map]
      exact (List.map_id p.heads).symm ▸ List.nodup_dedup _
    · rw [get?_of_names]
      by_cases hi : i ∈ p.heads
      · rw [if_pos hi]
        have hne := mem_heads.mp hi
        refine ⟨iff_of_false nofun hne, fun w hw => ?_⟩
        obtain rfl := Option.some.inj hw
        exact ih (p.below i) fun _ => hne
      · rw [if_neg hi]
        exact ⟨iff_of_true rfl (not_not.mp fun hne => hi (mem_heads.mpr hne)), nofun⟩

/-! ### Looking up -/

theorem find_tuple_rows {rows : List (List String × Value)} (h : (rows.map Prod.fst).Nodup) :
    Value.find (.tuple indices) (rows.map fun r => (.tuple r.1, r.2)) = some v ↔
      (indices, v) ∈ rows := by
  induction rows with
  | nil => simp [Value.find]
  | cons r rest ih =>
    obtain ⟨hr, hrest⟩ := List.nodup_cons.mp h
    rw [List.map_cons, Value.find_cons]
    by_cases hi : indices = r.1
    · -- no later row has the same tuple
      have hnone : (indices, v) ∉ rest := fun hmem => hr (List.mem_map.mpr ⟨_, hmem, hi⟩)
      rw [if_pos (Key.equals_tuple_iff.mpr (by rw [hi])), List.mem_cons, or_iff_left hnone,
        Prod.ext_iff, Option.some.injEq, eq_comm]
      exact (and_iff_right hi).symm
    · rw [if_neg fun heq => hi (Key.tuple.inj (Key.equals_tuple_iff.mp heq)).symm, ih hrest,
        List.mem_cons, or_iff_right]
      exact fun heq => hi (congrArg Prod.fst heq)

/-- In the mapping that is keyed by tuples an entry is found under the whole tuple only. -/
theorem lookup_flat (p : ParameterTable n) (hne : indices ≠ []) :
    Source.lookup p.flat indices = some v ↔ (indices, v) ∈ p.rows := by
  have hwalk : Source.walk (.map p.flat) indices = none := by
    obtain ⟨i, rest, rfl⟩ := List.exists_cons_of_ne_nil hne
    have hnone : Value.find (.text i) p.flat = none := by
      refine Value.find_eq_none fun e he => ?_
      obtain ⟨r, -, rfl⟩ := List.mem_map.mp he
      rfl
    rw [Source.walk, hnone]
  rw [← find_tuple_rows p.distinct, Source.lookup, ← flat]
  cases Value.find (.tuple indices) p.flat with
  | none => simp [hwalk]
  | some w => rfl

/-- A walk down a nested layout ends at the value of the function, if there is one. Too many indices
lead to no value, since a value is no mapping. -/
theorem walk_of_nests {p : ParameterTable n} (h : Nests n p v) (hn : n ≤ indices.length) :
    Source.walk v indices = some w ↔ (indices, w) ∈ p.rows := by
  induction n generalizing v indices with
  | zero =>
    have hv : ([], v) ∈ p.rows := h
    cases indices with
    | nil =>
      rw [Source.walk, Option.some.injEq]
      constructor
      · rintro rfl
        exact hv
      · exact p.value_unique hv
    | cons i rest =>
      have hwalk : Source.walk v (i :: rest) = none := by
        cases v with
        | map entries => exact absurd rfl (p.plain _ hv entries)
        | _ => rfl
      rw [hwalk]
      exact iff_of_false nofun fun hmem => absurd (p.arity _ hmem) (Nat.succ_ne_zero _)
  | succ n ih =>
    obtain ⟨t, rfl, -, hlevel⟩ := h
    obtain ⟨i, rest, rfl⟩ := List.exists_cons_of_length_pos (Nat.lt_of_lt_of_le n.succ_pos hn)
    obtain ⟨hnone, hsome⟩ := hlevel i
    rw [← mem_below, Value.ofTable, Source.walk, Value.find_text_table]
    cases hget : t.get? i with
    | none =>
      rw [hnone.mp hget]
      exact iff_of_false nofun List.not_mem_nil
    | some u => exact ih (hsome u hget) (Nat.le_of_succ_le_succ hn)

/-! ### The answers of a source -/

/-- What is found in a mapping, as the answer of a source. -/
def answer (name : String) (indices : List String) : Option Value → Except Fault Value
  | some v => .ok v
  | none => .error (.missingParameter name indices)

theorem answer_eq_ok {name : String} {found : Option Value} :
    answer name indices found = .ok v ↔ found = some v := by
  cases found with
  | none => exact iff_of_false nofun nofun
  | some w => simp [answer]

/-- A source that holds a mapping under a name answers with what is found in it. -/
theorem get_put_self (name : String) (rows entries : List (Key × Value)) (hne : indices ≠ []) :
    (Source.tables (Value.put (.text name) (.map rows) entries)).get name indices =
      answer name indices (Source.lookup rows indices) := by
  have hempty : indices.isEmpty = false := by
    rwa [← Bool.not_eq_true, List.isEmpty_iff]
  simp only [Source.get, Value.find_text_put, if_pos, hempty]
  cases Source.lookup rows indices <;> rfl

/-- For all other names it does not matter what the source holds there. -/
theorem get_put_of_ne {name other : String} (h : other ≠ name) (v : Value)
    (entries : List (Key × Value)) (indices : List String) :
    (Source.tables (Value.put (.text name) v entries)).get other indices =
      (Source.tables entries).get other indices := by
  simp only [Source.get, Value.find_text_put, if_neg h]

/-- **The layouts of a parameter are interchangeable.** Let a source hold a function of `n ≥ 1`
indices under a name, keyed by tuples or in a nested layout, of which there is at least one. For at
least `n` indices both sources give the same answers to all names. For the name of the function the
answer is a value exactly if there are `n` indices at which the function has this value, and
otherwise the parameter is missing. -/
theorem layouts_interchangeable (hn : 0 < n) (p : ParameterTable n) :
    Nests n p (nested n p) ∧ ∀ layout, Nests n p layout → ∀ entries name indices,
      n ≤ indices.length →
      let keyed := Source.tables (Value.put (.text name) (.map p.flat) entries)
      let leveled := Source.tables (Value.put (.text name) layout entries)
      (∀ other, keyed.get other indices = leveled.get other indices) ∧
      (∀ v, keyed.get name indices = .ok v ↔ indices.length = n ∧ (indices, v) ∈ p.rows) ∧
      ((¬ ∃ v, (indices, v) ∈ p.rows) →
        keyed.get name indices = .error (.missingParameter name indices)) := by
  refine ⟨nests_nested n p fun h => absurd h (Nat.ne_of_gt hn), ?_⟩
  intro layout hlayout entries name indices hle keyed leveled
  have hne : indices ≠ [] := List.ne_nil_of_length_pos (Nat.lt_of_lt_of_le hn hle)
  -- a nested layout of at least one level is the mapping of a table
  obtain ⟨t, rfl⟩ : ∃ t : Table Value, layout = .ofTable t := by
    obtain ⟨k, rfl⟩ := Nat.exists_eq_succ_of_ne_zero (Nat.ne_of_gt hn)
    obtain ⟨t, ht, -⟩ := hlayout
    exact ⟨t, ht⟩
  have hkeyed : keyed.get name indices = answer name indices (Source.lookup p.flat indices) :=
    get_put_self name p.flat entries hne
  have hleveled : leveled.get name indices = answer name indices
      (Source.lookup (t.toList.map fun e => (.text e.1, e.2)) indices) :=
    get_put_self name _ entries hne
  have hfound : Source.lookup (t.toList.map fun e => (.text e.1, e.2)) indices =
      Source.lookup p.flat indices := by
    refine Option.ext fun v => ?_
    rw [lookup_flat p hne, Source.lookup, Value.find_tuple_table]
    exact walk_of_nests hlayout hle
  refine ⟨fun other => ?_, fun v => ?_, fun hnone => ?_⟩
  · by_cases h : other = name
    · rw [h, hkeyed, hleveled, hfound]
    · exact (get_put_of_ne h _ entries indices).trans (get_put_of_ne h _ entries indices).symm
  · rw [hkeyed, answer_eq_ok, lookup_flat p hne]
    exact ⟨fun hmem => ⟨p.arity _ hmem, hmem⟩, And.right⟩
  · have hlookup : Source.lookup p.flat indices = none :=
      Option.eq_none_iff_forall_ne_some.mpr fun v hv => hnone ⟨v, (lookup_flat p hne).mp hv⟩
    rw [hkeyed, hlookup]
    rfl

/-- Shares by factor and sector. -/
def shares : ParameterTable 2 where
  rows := [(["lab", "agr"], .number (.int 6)), (["cap", "agr"], .number (.int 4)),
    (["lab", "mfg"], .text "rest")]
  distinct := by decide
  arity := by decide
  plain := by
    rintro r (_ | ⟨_, _ | ⟨_, _ | ⟨_, _ | _⟩⟩⟩) entries <;> exact nofun

/-- Shares in a nested layout with its own order, next to another parameter: with two indices a
share is found, with three there is none. -/
theorem layouts_interchangeable_shares :
    let layout := Value.ofTable ⟨[("cap", .ofTable ⟨[("agr", .number (.int 4))]⟩),
      ("lab", .ofTable ⟨[("mfg", .text "rest"), ("agr", .number (.int 6))]⟩)]⟩
    let others := [(Key.text "tau", Value.number (.int 1))]
    let keyed := Source.tables (Value.put (.text "share") (.map shares.flat) others)
    let leveled := Source.tables (Value.put (.text "share") layout others)
    0 < 2 ∧ Nests 2 shares layout ∧ 2 ≤ ["lab", "agr"].length ∧
      2 ≤ ["lab", "agr", "mfg"].length ∧
      keyed.get "share" ["lab", "agr"] = .ok (.number (.int 6)) ∧
      leveled.get "share" ["lab", "agr"] = .ok (.number (.int 6)) ∧
      leveled.get "share" ["lab", "agr", "mfg"] =
        .error (.missingParameter "share" ["lab", "agr", "mfg"]) := by
  intro layout others keyed leveled
  have hlayout : Nests 2 shares layout := by
    refine ⟨_, rfl, by decide, fun i => ?_⟩
    by_cases hcap : i = "cap"
    · subst hcap
      refine ⟨by simp [Table.get?, Table.seek, below, shares, rowBelow], fun w hw => ?_⟩
      cases hw
      refine ⟨_, rfl, by decide, fun j => ?_⟩
      by_cases hj : j = "agr" <;>
        simp [Table.get?, Table.seek, below, shares, rowBelow, Nests, hj, Ne.symm]
    by_cases hlab : i = "lab"
    · subst hlab
      refine ⟨by simp [Table.get?, Table.seek, below, shares, rowBelow], fun w hw => ?_⟩
      cases hw
      refine ⟨_, rfl, by decide, fun j => ?_⟩
      by_cases hmfg : j = "mfg" <;> by_cases hagr : j = "agr" <;>
        simp [Table.get?, Table.seek, below, shares, rowBelow, Nests, hmfg, hagr, Ne.symm]
    · simp [Table.get?, Table.seek, below, shares, rowBelow, hcap, hlab, Ne.symm hcap, Ne.symm hlab]
  obtain ⟨-, hall⟩ := layouts_interchangeable (by decide) shares
  obtain ⟨hsame, hfound, -⟩ := hall layout hlayout others "share" ["lab", "agr"] (by decide)
  obtain ⟨hlong, -, hmissing⟩ :=
    hall layout hlayout others "share" ["lab", "agr", "mfg"] (by decide)
  have htwo : keyed.get "share" ["lab", "agr"] = .ok (.number (.int 6)) :=
    (hfound _).mpr ⟨rfl, List.mem_cons_self⟩
  have hthree : leveled.get "share" ["lab", "agr", "mfg"] =
      .error (.missingParameter "share" ["lab", "agr", "mfg"]) := by
    refine (hlong "share").symm.trans (hmissing ?_)
    rintro ⟨v, hv⟩
    have hlength : 3 = 2 := shares.arity _ hv
    omega
  exact ⟨by decide, hlayout, by decide, by decide, htwo, (hsame "share").symm.trans htwo, hthree⟩

end ParameterTable

end Equilibrium

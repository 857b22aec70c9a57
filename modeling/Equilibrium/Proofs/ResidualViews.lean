/-
The views of the residuals.

The residuals of a system are seen in a summary, in a ranking, in a dataset and in a validation. A
summary counts the sizes above a tolerance, and a dataset marks the slacks within it; between two
numbers one of these holds and not the other. What is not a number is neither above a tolerance nor
within it.

* `Binary.lt_iff_not_le`, `Binary.not_lt_of_isNaN` - when one comparison is the opposite of another;
* `EquationSystem.worstOf_cons`, `head?_mergeSort_cons` - the worst entry of a summary and the first
  row of a ranking, found by the same recursion;
* `EquationSystem.worstOf_eq_head_mergeSort` - so they are the same where only numbers, or no
  numbers at all, are ranked;
* `Dataset.length_eq_countP` - the residuals, counted by how they compare with a tolerance;
* `EquationSystem.residual_views_agree` - how the four views fit together;
* `EquationSystem.nan_residual_parts_views` - a residual that is not a number.
-/
import Equilibrium.Proofs.Sizes
import Equilibrium.Proofs.Validations
import Equilibrium.Dataset

namespace Equilibrium

open Float.Model

namespace Binary

/-! ### Comparisons of doubles -/

/-- Comparing the other way round gives the opposite result. -/
theorem compare_swap (u v : UnpackedFloat) : v.compare u = (u.compare v).map Ordering.swap := by
  have hparts (e f : Int) (m n : Nat) :
      (compare f e).then (compare n m) = ((compare e f).then (compare m n)).swap := by
    rw [Ordering.swap_then, Int.compare_swap, Nat.compare_swap]
  cases u with
  | notANumber => cases v <;> rfl
  | infinity s =>
    cases v with
    | notANumber => cases s <;> rfl
    | infinity t => cases s <;> cases t <;> rfl
    | zero t => cases s <;> rfl
    | finite t n f hn => cases s <;> cases t <;> rfl
  | zero s =>
    cases v with
    | notANumber => rfl
    | infinity t => cases t <;> rfl
    | zero t => rfl
    | finite t n f hn => cases t <;> rfl
  | finite s m e hm =>
    cases v with
    | notANumber => cases s <;> rfl
    | infinity t => cases s <;> cases t <;> rfl
    | zero t => cases s <;> rfl
    | finite t n f hn =>
      cases s with
      | negative =>
        cases t with
        | negative => exact congrArg (fun o => some o.swap) (hparts e f m n)
        | positive => rfl
      | positive =>
        cases t with
        | negative => rfl
        | positive => exact congrArg some (hparts e f m n)

theorem compare_eq_none {u v : UnpackedFloat} :
    u.compare v = none ↔ u.isNaN = true ∨ v.isNaN = true := by
  have hnumbers (o : Ordering) : some o = none ↔ false = true ∨ false = true :=
    iff_of_false (Option.some_ne_none o) (by decide)
  cases u with
  | notANumber => cases v <;> exact iff_of_true rfl (.inl rfl)
  | infinity s =>
    cases v with
    | notANumber => cases s <;> exact iff_of_true rfl (.inr rfl)
    | infinity t => cases s <;> cases t <;> exact hnumbers _
    | zero t => cases s <;> exact hnumbers _
    | finite t n f hn => cases s <;> exact hnumbers _
  | zero s =>
    cases v with
    | notANumber => exact iff_of_true rfl (.inr rfl)
    | infinity t => cases t <;> exact hnumbers _
    | zero t => exact hnumbers _
    | finite t n f hn => cases t <;> exact hnumbers _
  | finite s m e hm =>
    cases v with
    | notANumber => cases s <;> exact iff_of_true rfl (.inr rfl)
    | infinity t => cases s <;> cases t <;> exact hnumbers _
    | zero t => cases s <;> exact hnumbers _
    | finite t n f hn => cases s <;> cases t <;> exact hnumbers _

variable {x y : Float}

theorem lt_iff (x y : Float) : x < y ↔ x.toModel.unpack.compare y.toModel.unpack = some .lt := by
  have hlt : x < y ↔ x.toModel.unpack.lt y.toModel.unpack = true := decide_eq_true_iff
  rw [hlt, UnpackedFloat.lt, beq_iff_eq]

/-- Between numbers, one is less or the other one is at most as great. -/
theorem lt_iff_not_le (hx : x.isNaN = false) (hy : y.isNaN = false) : x < y ↔ ¬ y ≤ x := by
  rw [lt_iff, le_iff, UnpackedFloat.le, compare_swap x.toModel.unpack y.toModel.unpack]
  cases hcompare : x.toModel.unpack.compare y.toModel.unpack with
  | none =>
    obtain h | h := compare_eq_none.mp hcompare
    · exact absurd h (Bool.eq_false_iff.mp hx)
    · exact absurd h (Bool.eq_false_iff.mp hy)
  | some o => cases o <;> decide

theorem not_lt_of_isNaN (h : x.isNaN = true ∨ y.isNaN = true) : ¬ x < y := by
  rw [lt_iff, compare_eq_none.mpr h]
  exact (Option.some_ne_none _).symm

theorem not_le_of_isNaN (h : x.isNaN = true ∨ y.isNaN = true) : ¬ x ≤ y := by
  rw [le_iff, UnpackedFloat.le, compare_eq_none.mpr h]
  exact Bool.false_ne_true

end Binary

/-! ### The head of a ranking -/

/-- The head of a sorted list: a new entry in front goes first unless the head of the others goes
before it. -/
theorem head?_mergeSort_cons {α : Type} {le : α → α → Bool}
    (htrans : ∀ a b c, le a b = true → le b c = true → le a c = true)
    (htotal : ∀ a b, (le a b || le b a) = true) (a : α) (l : List α) :
    ((a :: l).mergeSort le).head? =
      some ((l.mergeSort le).head?.elim a fun w => if le a w then a else w) := by
  obtain ⟨before, after, hcons, hrest, hbefore⟩ := List.mergeSort_cons htrans htotal a l
  have hsorted := List.pairwise_mergeSort htrans htotal (a :: l)
  rw [hcons, List.pairwise_append] at hsorted
  obtain ⟨-, hafter, -⟩ := hsorted
  rw [hcons, hrest]
  cases before with
  | nil =>
    cases after with
    | nil => rfl
    | cons w after =>
      have hle : le a w = true := List.rel_of_pairwise_cons hafter List.mem_cons_self
      simp [hle]
  | cons w before =>
    have hnot : le a w = false := by simpa using hbefore w List.mem_cons_self
    simp [hnot]

namespace ResidualEntry

variable {a b e w : ResidualEntry}

/-- The worse one of two entries, the first one if they are equally bad. -/
def worse (e w : ResidualEntry) : ResidualEntry := if w.isWorse e then w else e

/-- The place of an entry among all entries: numbers by their rank, then what is not a number. -/
def place (e : ResidualEntry) : Nat := if e.isNaN then 2 ^ 63 else e.rank

theorem isWorse_iff : a.isWorse b = true ↔ b.place < a.place := by
  have ha : a.rank < 2 ^ 63 := Nat.mod_lt _ (by decide)
  have hb : b.rank < 2 ^ 63 := Nat.mod_lt _ (by decide)
  unfold isWorse place
  cases a.isNaN <;> cases b.isNaN <;> simp <;> omega

theorem worse_of_lt (h : e.place < w.place) : e.worse w = w := if_pos (isWorse_iff.mpr h)

theorem worse_of_le (h : w.place ≤ e.place) : e.worse w = e :=
  if_neg (mt isWorse_iff.mp h.not_gt)

theorem worse_assoc (e a w : ResidualEntry) : (e.worse a).worse w = e.worse (a.worse w) := by
  obtain hea | hea := lt_or_ge e.place a.place
  · obtain haw | haw := lt_or_ge a.place w.place
    · rw [worse_of_lt hea, worse_of_lt haw, worse_of_lt (hea.trans haw)]
    · rw [worse_of_lt hea, worse_of_le haw, worse_of_lt hea]
  · obtain haw | haw := lt_or_ge a.place w.place
    · rw [worse_of_le hea, worse_of_lt haw]
    · rw [worse_of_le hea, worse_of_le haw, worse_of_le hea, worse_of_le (haw.trans hea)]

/-- Among numbers, and among what are not numbers, a worse entry is one that does not go first. -/
theorem worse_eq (h : e.isNaN = w.isNaN) : e.worse w = if e.goesFirst w then e else w := by
  have hiff : w.isWorse e = !e.goesFirst w := by
    unfold isWorse goesFirst
    rw [h]
    cases w.isNaN with
    | true => rfl
    | false =>
      show decide (e.rank < w.rank) = !decide (w.rank ≤ e.rank)
      rw [← decide_not, decide_eq_decide, Nat.not_le]
  rw [worse, hiff]
  cases e.goesFirst w <;> rfl

/-- All entries are numbers, or none is. -/
def Alike (entries : List ResidualEntry) : Prop := ∀ a ∈ entries, ∀ b ∈ entries, a.isNaN = b.isNaN

end ResidualEntry

namespace EquationSystem

open ResidualEntry

variable {s : EquationSystem} {tol : Float} {entries : List ResidualEntry}

/-- The worst entry, with a new entry in front. -/
theorem worstOf_cons (e : ResidualEntry) (rest : List ResidualEntry) :
    worstOf (e :: rest) = some ((worstOf rest).elim e e.worse) := by
  induction rest generalizing e with
  | nil => rfl
  | cons a rest ih =>
    have hstep : worstOf (e :: a :: rest) = worstOf (e.worse a :: rest) := rfl
    rw [hstep, ih (e.worse a), ih a]
    cases worstOf rest with
    | none => rfl
    | some w => exact congrArg some (worse_assoc e a w)

/-- The worst entry goes first in a ranking of numbers, and in one of no numbers at all. -/
theorem worstOf_eq_head_mergeSort (h : Alike entries) :
    worstOf entries = (entries.mergeSort goesFirst).head? := by
  induction entries with
  | nil => rw [List.mergeSort_nil, worstOf, List.head?_nil]
  | cons e rest ih =>
    have hrest : Alike rest := fun a ha b hb =>
      h a (List.mem_cons_of_mem e ha) b (List.mem_cons_of_mem e hb)
    rw [worstOf_cons, head?_mergeSort_cons goesFirst_trans goesFirst_total, ih hrest]
    cases hhead : (rest.mergeSort goesFirst).head? with
    | none => rfl
    | some w =>
      have hw : w ∈ rest := List.mem_mergeSort.mp (List.mem_of_head? hhead)
      exact congrArg some
        (worse_eq (h e List.mem_cons_self w (List.mem_cons_of_mem e hw)))

theorem ranking_map_entry (s : EquationSystem) :
    s.ranking.map ResidualRow.entry = s.residuals.mergeSort goesFirst := by
  have hentries : s.residualRows.map ResidualRow.entry = s.residuals := by
    apply List.ext_getElem?
    intro n
    rw [residualRows, List.getElem?_map, List.getElem?_mapIdx, Option.map_map]
    exact Option.map_id'
  have hsort := List.map_mergeSort (l := s.residualRows) (f := ResidualRow.entry)
    (r := fun a b => a.entry.goesFirst b.entry) (s := goesFirst) fun a _ b _ => rfl
  rwa [hentries] at hsort

/-- A row of a ranking holds the entry at its position. -/
theorem getElem?_of_mem_ranking {row : ResidualRow} (h : row ∈ s.ranking) :
    s.residuals[row.order]? = some row.entry := by
  obtain ⟨n, hn, rfl⟩ := List.mem_mapIdx.mp (s.ranking_perm.mem_iff.mp h)
  exact List.getElem?_eq_getElem hn

theorem head?_worstResiduals {n : Int} (hn : 1 ≤ n) :
    (s.worstResiduals n).head? = s.ranking.head? := by
  have hcount : rowCount s.ranking.length n ≠ 0 := by
    rw [rowCount, if_neg (by omega)]
    omega
  rw [worstResiduals, List.head?_take, if_neg hcount]

/-- The first row of a ranking is the worst entry, at its position. -/
theorem exists_head?_worstResiduals {n : Int} (hn : 1 ≤ n) (hne : s.residuals ≠ [])
    (h : Alike s.residuals) :
    ∃ row, (s.worstResiduals n).head? = some row ∧ worstOf s.residuals = some row.entry ∧
      s.residuals[row.order]? = some row.entry := by
  have hworst := worstOf_eq_head_mergeSort h
  rw [← ranking_map_entry, List.head?_map] at hworst
  rw [head?_worstResiduals hn]
  cases hhead : s.ranking.head? with
  | none =>
    rw [hhead] at hworst
    cases hentries : s.residuals with
    | nil => exact absurd hentries hne
    | cons e rest =>
      rw [hentries, worstOf_cons] at hworst
      cases hworst
  | some row =>
    rw [hhead] at hworst
    exact ⟨row, rfl, hworst, getElem?_of_mem_ranking (List.mem_of_head? hhead)⟩

end EquationSystem

/-! ### Counting residuals -/

namespace Dataset

variable {s : EquationSystem} {tol : Float} {heading : Heading} {dataset : Dataset}

/-- Whether a slack does not compare with a tolerance, since one of them is not a number. -/
def Solution.isUnordered (tol : Float) (x : Solution) : Bool := x.slack.isNaN || tol.isNaN

/-- A residual above the tolerance has a slack that compares with it and is not binding. -/
theorem isAbove_iff (tol : Float) (e : ResidualEntry) :
    e.isAbove tol = true ↔
      (solutionOf tol e).isBinding = false ∧ (solutionOf tol e).isUnordered tol = false := by
  have habove : e.isAbove tol = true ↔ tol < e.size := decide_eq_true_iff
  have hbinding : (solutionOf tol e).isBinding = false ↔ ¬ e.size ≤ tol := decide_eq_false_iff_not
  rw [habove, hbinding]
  cases hunordered : (solutionOf tol e).isUnordered tol with
  | true =>
    have hnan : e.size.isNaN = true ∨ tol.isNaN = true := Bool.or_eq_true_iff.mp hunordered
    simp [Binary.not_lt_of_isNaN hnan.symm]
  | false =>
    obtain ⟨hsize, htol⟩ : e.size.isNaN = false ∧ tol.isNaN = false :=
      Bool.or_eq_false_iff.mp hunordered
    simp [Binary.lt_iff_not_le htol hsize]

theorem not_isBinding_of_isUnordered {e : ResidualEntry}
    (h : (solutionOf tol e).isUnordered tol = true) : (solutionOf tol e).isBinding = false :=
  decide_eq_false (Binary.not_le_of_isNaN (Bool.or_eq_true_iff.mp h))

/-- A residual is above the tolerance, or binding, or does not compare with it, and only one of
these. -/
theorem verdicts (tol : Float) (e : ResidualEntry) :
    (if e.isAbove tol = true then 1 else 0) +
      (if (solutionOf tol e).isBinding = true then 1 else 0) +
      (if (solutionOf tol e).isUnordered tol = true then 1 else 0) = 1 := by
  simp only [isAbove_iff]
  cases hunordered : (solutionOf tol e).isUnordered tol with
  | true => rw [not_isBinding_of_isUnordered hunordered]; rfl
  | false => cases (solutionOf tol e).isBinding <;> rfl

/-- The residuals, counted by how they compare with a tolerance. -/
theorem length_eq_countP (tol : Float) (entries : List ResidualEntry) :
    entries.length = entries.countP (·.isAbove tol) +
      (entries.map (solutionOf tol)).countP (·.isBinding) +
      (entries.map (solutionOf tol)).countP (·.isUnordered tol) := by
  induction entries with
  | nil => rfl
  | cons e rest ih =>
    have hverdicts := verdicts tol e
    rw [List.map_cons, List.countP_cons, List.countP_cons, List.countP_cons, List.length_cons, ih]
    omega

/-- An export has the solution of every residual. -/
theorem solutions_of_ofSystem (h : ofSystem s heading tol = .ok dataset) :
    dataset.solutions = s.residuals.map (solutionOf tol) := by
  obtain ⟨description, -, h⟩ := bind_eq_ok.mp h
  obtain ⟨id, -, h⟩ := bind_eq_ok.mp h
  cases h
  rfl

end Dataset

namespace Validation

variable {s : EquationSystem} {l : Level} {tol : Float} {settings : Settings}

/-- Whether there is a warning about residuals above the tolerance. -/
def Warns (r : Report) : Prop :=
  ∃ k : Nat, "Residuals above tolerance: " ++ toString k ∈ (r.findings .residuals).warnings

theorem residuals_of_validate {data level : Value} {r : Report}
    (h : validate s data level tol settings = .ok r) :
    ∃ l, r.findings .residuals = residualFindings s l tol settings := by
  obtain ⟨l, scaling, -, -, rfl⟩ := validate_eq_ok.mp h
  exact ⟨l, (findings_report _ _ _ _).2.1⟩

/-- A validation warns of residuals above the tolerance exactly if there are some. -/
theorem warns_iff {data level : Value} {r : Report}
    (h : validate s data level tol settings = .ok r) :
    Warns r ↔ ∃ e ∈ s.residuals, e.isAbove tol = true := by
  obtain ⟨l, hfindings⟩ := residuals_of_validate h
  rw [Warns, hfindings, residualFindings, ← List.countP_pos_iff]
  split
  · next hempty =>
    rw [List.isEmpty_iff.mp hempty, List.countP_nil]
    constructor
    · rintro ⟨k, hk⟩
      -- the texts differ in their first letter
      have hletters := congrArg (fun t => t.toList.head?) (List.mem_singleton.mp hk)
      rw [String.toList_append] at hletters
      cases hletters
    · exact fun hpos => absurd hpos (lt_irrefl 0)
  · show (∃ k : Nat, _ ∈ toleranceWarnings (s.summarizeResiduals tol)) ↔ _
    rw [toleranceWarnings]
    by_cases hpos : (s.summarizeResiduals tol).aboveTol > 0
    · rw [if_pos hpos]
      exact ⟨fun _ => hpos, fun _ => ⟨_, List.mem_singleton_self _⟩⟩
    · rw [if_neg hpos]
      exact ⟨fun hk => absurd hk.choose_spec List.not_mem_nil, fun h => absurd h hpos⟩

end Validation

namespace EquationSystem

open Validation

/-- **The views of the residuals agree on numbers.** The number of residuals is the number of those
above the tolerance, of the binding solutions, and of the solutions that do not compare with the
tolerance since a number is missing. Where the residuals are numbers, or none of them is, the worst
one is the first row of any ranking that has rows. A validation warns of residuals above the
tolerance exactly if a solution compares with it and is not binding. An export and a basic
validation always succeed. -/
theorem residual_views_agree (s : EquationSystem) (tol : Float) :
    (∃ dataset, Dataset.ofSystem s {} tol = .ok dataset) ∧
    (∃ r, validate s .none (.text "basic") tol {} = .ok r) ∧
    (∀ n : Int, 1 ≤ n → s.residuals ≠ [] → ResidualEntry.Alike s.residuals →
      ∃ row, (s.worstResiduals n).head? = some row ∧
        (s.summarizeResiduals tol).worst = some row.entry ∧
        s.residuals[row.order]? = some row.entry) ∧
    ∀ heading dataset, Dataset.ofSystem s heading tol = .ok dataset →
      (s.summarizeResiduals tol).count = (s.summarizeResiduals tol).aboveTol +
        dataset.solutions.countP (·.isBinding) + dataset.solutions.countP (·.isUnordered tol) ∧
      ∀ data level settings r, validate s data level tol settings = .ok r →
        (Warns r ↔ ∃ x ∈ dataset.solutions, x.isBinding = false ∧ x.isUnordered tol = false) := by
  refine ⟨⟨_, rfl⟩, ⟨_, rfl⟩, fun n => exists_head?_worstResiduals, ?_⟩
  intro heading dataset hdataset
  rw [Dataset.solutions_of_ofSystem hdataset]
  refine ⟨Dataset.length_eq_countP tol s.residuals, fun data level settings r hr => ?_⟩
  rw [warns_iff hr]
  simp only [Dataset.isAbove_iff, List.mem_map, exists_exists_and_eq_and]

/-- A system with these residuals, each under an index of its own. -/
def withResiduals (residuals : List (String × Float)) : EquationSystem :=
  { EquationSystem.new (some (.empty "model")) with
    equations := residuals.map fun e => ⟨"balance", "goods", .structured
      ⟨none, none, .none, none, [e.1], .absent, none, none, some e.2, .empty⟩⟩ }

/-- Three numbers, two of the greatest size, which is above the tolerance. -/
theorem residual_views_agree_of_numbers :
    let s := withResiduals [("a", 0.5), ("b", -2.0), ("c", 2.0)]
    (∃ row, (s.worstResiduals 1).head? = some row ∧
      (s.summarizeResiduals 0.5).worst = some row.entry ∧ row.entry.indices = ["b"]) ∧
    (s.summarizeResiduals 0.5).count = 3 ∧ (s.summarizeResiduals 0.5).aboveTol = 2 ∧
    ∃ dataset r, Dataset.ofSystem s {} 0.5 = .ok dataset ∧
      validate s .none (.text "full") 0.5 {} = .ok r ∧
      dataset.solutions.countP (·.isBinding) = 1 ∧ Warns r := by
  intro s
  have hworst : (worstOf s.residuals).map ResidualEntry.indices = some ["b"] := by decide +kernel
  have halike : ResidualEntry.Alike s.residuals := by
    rintro a (_ | ⟨_, _ | ⟨_, _ | ⟨_, _ | _⟩⟩⟩) b (_ | ⟨_, _ | ⟨_, _ | ⟨_, _ | _⟩⟩⟩) <;>
      decide +kernel
  have hdataset : Dataset.ofSystem s {} 0.5 = .ok _ := rfl
  have hreport : validate s .none (.text "full") 0.5 {} = .ok _ := rfl
  obtain ⟨-, -, hranking, hviews⟩ := residual_views_agree s 0.5
  obtain ⟨row, hrow, hw, -⟩ := hranking 1 le_rfl (List.cons_ne_nil _ _) halike
  obtain ⟨-, hwarns⟩ := hviews {} _ hdataset
  have habove : ∃ x ∈ s.residuals.map (Dataset.solutionOf 0.5),
      x.isBinding = false ∧ x.isUnordered 0.5 = false := by decide +kernel
  refine ⟨⟨row, hrow, hw, ?_⟩, by decide +kernel, by decide +kernel, _, _, hdataset, hreport,
    by decide +kernel, (hwarns _ _ _ _ hreport).mpr habove⟩
  change worstOf s.residuals = some row.entry at hw
  rw [hw] at hworst
  exact Option.some.inj hworst

/-- A residual that is not a number is counted neither as above the tolerance nor as binding, it is
the worst one and comes last in the ranking, and there is no warning of it. -/
theorem nan_residual_parts_views :
    let s := withResiduals [("a", 0.0), ("b", Float.ofBits 0x7ff8000000000000)]
    ∃ dataset r, Dataset.ofSystem s {} 1e-6 = .ok dataset ∧
      validate s .none (.text "basic") 1e-6 {} = .ok r ∧ s.residuals ≠ [] ∧
      (s.summarizeResiduals 1e-6).count ≠
        (s.summarizeResiduals 1e-6).aboveTol + dataset.solutions.countP (·.isBinding) ∧
      (s.summarizeResiduals 1e-6).worst ≠ (s.worstResiduals 1).head?.map ResidualRow.entry ∧
      ¬ (Warns r ↔ ∃ x ∈ dataset.solutions, x.isBinding = false) := by
  intro s
  have hreport : validate s .none (.text "basic") 1e-6 {} = .ok _ := rfl
  refine ⟨_, _, rfl, hreport, List.cons_ne_nil _ _, by decide +kernel, ?_, ?_⟩
  · rw [head?_worstResiduals le_rfl, ← List.head?_map, ranking_map_entry]
    intro hworst
    have hranked := congrArg (Option.map ResidualEntry.indices) hworst
    have hresiduals : s.residuals = [⟨"balance", "goods", ["a"], 0.0⟩,
        ⟨"balance", "goods", ["b"], Float.ofBits 0x7ff8000000000000⟩] := rfl
    rw [hresiduals, head?_mergeSort_cons ResidualEntry.goesFirst_trans
      ResidualEntry.goesFirst_total, List.mergeSort_singleton] at hranked
    revert hranked
    decide +kernel
  · rw [warns_iff hreport]
    decide +kernel

end EquationSystem

end Equilibrium

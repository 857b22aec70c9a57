/-
Rankings of residuals.

A ranking is a stable sort: rows of greater size come first, and rows of one size stay in the order
of their registration. Among numbers this leaves no choice, any two rows stand in one order. So the
first rows of a ranking are told by what they come before, and asking for more rows adds some behind
those that were listed already.

* `pairwise_mergeSort_of_pairwise` - what a stable sort keeps of the order that it starts from;
* `ResidualRow.Precedes`, `ResidualRow.precedes_iff` - the order of the rows;
* `EquationSystem.pairwise_ranking`, `EquationSystem.ranking_eq_of_perm` - a ranking of numbers is
  in that order, and nothing else is;
* `EquationSystem.Leads`, `EquationSystem.leads_worstResiduals` - what the first rows are;
* `EquationSystem.worst_residuals_lead` - the rows that are listed, alone and in a validation.
-/
import Equilibrium.Proofs.ResidualViews

namespace Equilibrium

/-! ### Stable sorting -/

/-- A stable sort: of two elements in their new order, the second one follows the first one in the
old order too, unless it had to be moved. -/
theorem pairwise_mergeSort_of_pairwise {α : Type} (le : α → α → Bool) {r : α → α → Prop}
    (htrans : ∀ a b c, le a b = true → le b c = true → le a c = true)
    (htotal : ∀ a b, (le a b || le b a) = true) {l : List α} (h : l.Pairwise r) :
    (l.mergeSort le).Pairwise fun a b => le a b = true ∧ (le b a = true → r a b) := by
  induction l with
  | nil =>
    rw [List.mergeSort_nil]
    exact .nil
  | cons a rest ih =>
    obtain ⟨hhead, hrest⟩ := List.pairwise_cons.mp h
    obtain ⟨before, after, hcons, hsorted, hbefore⟩ := List.mergeSort_cons htrans htotal a rest
    have hle := List.pairwise_mergeSort htrans htotal (a :: rest)
    rw [hcons] at hle ⊢
    have ih := ih hrest
    rw [hsorted] at ih
    obtain ⟨-, hafter, hacross⟩ := List.pairwise_append.mp hle
    obtain ⟨hleft, hright, hpast⟩ := List.pairwise_append.mp ih
    refine List.pairwise_append.mpr ⟨hleft, List.pairwise_cons.mpr ⟨?_, hright⟩, ?_⟩
    · intro b hb
      have hmem : b ∈ rest :=
        List.mem_mergeSort.mp (hsorted ▸ List.mem_append_right before hb)
      exact ⟨List.rel_of_pairwise_cons hafter hb, fun _ => hhead b hmem⟩
    · intro b hb c hc
      rcases List.mem_cons.mp hc with rfl | hc
      · -- what was moved in front of the head goes strictly before it
        have hnot : le c b = false := by simpa using hbefore b hb
        refine ⟨hacross b hb c List.mem_cons_self, fun hback => ?_⟩
        rw [hnot] at hback
        cases hback
      · exact hpast b hb c hc

/-! ### The order of rows -/

theorem Binary.abs_beq_abs {x y : Float} (hx : x.isNaN = false) (hy : y.isNaN = false) :
    (x.abs == y.abs) = true ↔ x.toBits.toNat % 2 ^ 63 = y.toBits.toNat % 2 ^ 63 := by
  have hbeq : (x.abs == y.abs) =
      (x.abs.toModel.unpack.compare y.abs.toModel.unpack == some .eq) := rfl
  rw [hbeq, compare_toModel_abs hx hy, beq_iff_eq, Option.some_inj]
  exact Nat.compare_eq_eq

namespace ResidualRow

/-- A row comes before another one: its size is greater, or it is the same and the row was
registered first. -/
def Precedes (a b : ResidualRow) : Prop :=
  b.entry.size < a.entry.size ∨ (a.entry.size == b.entry.size) = true ∧ a.order < b.order

variable {a b : ResidualRow}

instance : Decidable (a.Precedes b) := inferInstanceAs (Decidable (_ ∨ _ ∧ _))

theorem precedes_iff (ha : a.entry.isNaN = false) (hb : b.entry.isNaN = false) :
    a.Precedes b ↔
      b.entry.rank < a.entry.rank ∨ a.entry.rank = b.entry.rank ∧ a.order < b.order :=
  or_congr (Binary.abs_lt_abs hb ha) (and_congr_left' (Binary.abs_beq_abs ha hb))

theorem Precedes.asymm (ha : a.entry.isNaN = false) (hb : b.entry.isNaN = false)
    (h : a.Precedes b) : ¬ b.Precedes a := by
  rw [precedes_iff ha hb] at h
  rw [precedes_iff hb ha]
  omega

theorem goesFirst_iff (ha : a.entry.isNaN = false) (hb : b.entry.isNaN = false) :
    a.entry.goesFirst b.entry = true ↔ b.entry.rank ≤ a.entry.rank := by
  simp [ResidualEntry.goesFirst, ha, hb]

end ResidualRow

/-! ### Rankings of numbers -/

namespace EquationSystem

open ResidualRow Validation

variable {s : EquationSystem}

/-- Every entry has a row in a ranking. -/
theorem mem_ranking_of_getElem? {k : Nat} {e : ResidualEntry} (h : s.residuals[k]? = some e) :
    ⟨e, k⟩ ∈ s.ranking := by
  obtain ⟨hk, rfl⟩ := List.getElem?_eq_some_iff.mp h
  exact s.ranking_perm.mem_iff.mpr (List.mem_mapIdx.mpr ⟨k, hk, rfl⟩)

theorem order_residualRows (s : EquationSystem) :
    s.residualRows.map order = List.range s.residuals.length := by
  refine List.ext_getElem (by simp [residualRows]) fun n _ _ => ?_
  simp [residualRows]

/-- A ranking of numbers is in the order of its rows. -/
theorem pairwise_ranking (h : ∀ e ∈ s.residuals, e.isNaN = false) :
    s.ranking.Pairwise Precedes := by
  have hregistered : s.residualRows.Pairwise fun a b => a.order < b.order := by
    rw [← List.pairwise_map, order_residualRows]
    exact List.pairwise_lt_range
  have hstable := pairwise_mergeSort_of_pairwise
    (fun a b : ResidualRow => a.entry.goesFirst b.entry)
    (fun a b c => ResidualEntry.goesFirst_trans a.entry b.entry c.entry)
    (fun a b => ResidualEntry.goesFirst_total a.entry b.entry) hregistered
  refine hstable.imp_of_mem fun {a b} ha hb ⟨hfirst, hback⟩ => ?_
  have ha : a.entry.isNaN = false := h _ (List.mem_of_getElem? (getElem?_of_mem_ranking ha))
  have hb : b.entry.isNaN = false := h _ (List.mem_of_getElem? (getElem?_of_mem_ranking hb))
  -- rows that go beside each other have one rank, and these have not been exchanged
  rw [goesFirst_iff ha hb] at hfirst
  rw [goesFirst_iff hb ha] at hback
  rw [precedes_iff ha hb]
  omega

/-- And there is no other arrangement in that order. -/
theorem ranking_eq_of_perm (h : ∀ e ∈ s.residuals, e.isNaN = false) {rows : List ResidualRow}
    (hperm : rows.Perm s.residualRows) (hsorted : rows.Pairwise Precedes) : s.ranking = rows := by
  have hrows : s.ranking.Perm rows := s.ranking_perm.trans hperm.symm
  have hnumber : ∀ row ∈ s.ranking, row.entry.isNaN = false := fun row hrow =>
    h _ (List.mem_of_getElem? (getElem?_of_mem_ranking hrow))
  refine hrows.eq_of_pairwise (fun a b ha hb hab hba => ?_) (pairwise_ranking h) hsorted
  exact absurd hba (hab.asymm (hnumber a ha) (hnumber b (hrows.mem_iff.mpr hb)))

theorem worstResiduals_natCast (s : EquationSystem) (n : Nat) :
    s.worstResiduals n = s.ranking.take n := by
  rw [worstResiduals, rowCount, if_neg (Int.natCast_nonneg n).not_gt, Int.toNat_natCast]

/-! ### The first rows -/

/-- These are the first rows in the order of all rows, as many as were asked for. -/
structure Leads (s : EquationSystem) (n : Nat) (rows : List ResidualRow) : Prop where
  length_eq : rows.length = min n s.residuals.length
  entry_eq : ∀ row ∈ rows, s.residuals[row.order]? = some row.entry
  nodup : (rows.map order).Nodup
  sorted : rows.Pairwise Precedes
  /-- What is left out comes behind what is listed. -/
  omitted : ∀ row ∈ rows, ∀ (k : Nat) (e : ResidualEntry), s.residuals[k]? = some e →
    k ∉ rows.map order → row.Precedes ⟨e, k⟩ ∧ ¬ (ResidualRow.mk e k).Precedes row

theorem leads_worstResiduals (h : ∀ e ∈ s.residuals, e.isNaN = false) (n : Nat) :
    s.Leads n (s.worstResiduals n) := by
  have hranking := pairwise_ranking h
  rw [worstResiduals_natCast]
  constructor
  case length_eq =>
    rw [List.length_take, s.ranking_perm.length_eq, residualRows, List.length_mapIdx]
  case entry_eq => exact fun row hrow => getElem?_of_mem_ranking (List.mem_of_mem_take hrow)
  case nodup =>
    have hall : (s.ranking.map order).Nodup := by
      rw [(s.ranking_perm.map order).nodup_iff, order_residualRows]
      exact List.nodup_range
    exact hall.sublist ((List.take_sublist n _).map order)
  case sorted => exact hranking.sublist (List.take_sublist n _)
  case omitted =>
    intro row hrow k e he hk
    rw [← List.take_append_drop n s.ranking] at hranking
    have hdropped : ⟨e, k⟩ ∈ s.ranking.drop n := by
      have hmem := mem_ranking_of_getElem? he
      rw [← List.take_append_drop n s.ranking] at hmem
      exact (List.mem_append.mp hmem).resolve_left fun htaken => hk (List.mem_map_of_mem htaken)
    have hprecedes := (List.pairwise_append.mp hranking).2.2 row hrow _ hdropped
    have hnumber : row.entry.isNaN = false :=
      h _ (List.mem_of_getElem? (getElem?_of_mem_ranking (List.mem_of_mem_take hrow)))
    exact ⟨hprecedes, hprecedes.asymm hnumber (h e (List.mem_of_getElem? he))⟩

/-- The notes of a validation at the full level: one on the residuals as a whole, if there are any,
and one for each of the worst ones, with its rank, its label and its residual. -/
theorem notes_residualFindings (s : EquationSystem) (tol : Float) (settings : Settings) :
    (residualFindings s .full tol settings).notes.tail =
      (s.worstResiduals settings.topResiduals).mapIdx fun k row =>
        "worst " ++ toString (k + 1) ++ ": " ++ row.entry.label ++ " residual=" ++
          figure row.entry.residual := by
  rw [residualFindings]
  split
  · next hempty =>
    have hranking : s.ranking = [] := by
      rw [ranking, residualRows, List.isEmpty_iff.mp hempty, List.mapIdx_nil, List.mergeSort_nil]
    rw [worstResiduals, hranking, List.take_nil, List.mapIdx_nil, List.tail_nil]
  · rfl

/-- **The worst residuals are the first rows of a stable ranking.** Among numbers, the rows that are
listed are the first ones, in descending order of size and, within one size, in the order of their
registration. Asking for more rows adds rows at the end. At the full level, a validation of a
readable system gives a report, and the notes of a report list the rows that the settings ask for,
ranked from one, each with its label and its residual. -/
theorem worst_residuals_lead (s : EquationSystem) (h : ∀ e ∈ s.residuals, e.isNaN = false) :
    (∀ n : Nat, s.Leads n (s.worstResiduals n)) ∧
    (∀ n m : Nat, n ≤ m → s.worstResiduals n <+: s.worstResiduals m) ∧
    ∀ data level tol settings, Level.ofValue level = .ok .full →
      (s.Readable → ∃ report, validate s data level tol settings = .ok report) ∧
      ∀ report, validate s data level tol settings = .ok report →
        (report.findings .residuals).notes.tail =
          (s.worstResiduals settings.topResiduals).mapIdx fun k row =>
            "worst " ++ toString (k + 1) ++ ": " ++ row.entry.label ++ " residual=" ++
              figure row.entry.residual := by
  refine ⟨leads_worstResiduals h, ?_, ?_⟩
  · intro n m hnm
    rw [worstResiduals_natCast, worstResiduals_natCast]
    exact List.take_prefix_take_left hnm
  · intro data level tol settings hlevel
    refine ⟨fun hreadable => ?_, fun report hreport => ?_⟩
    · obtain ⟨scaling, hscaling⟩ := variableFindings_of_readable (fun _ => hreadable) settings
      exact ⟨_, validate_eq_ok.mpr ⟨.full, scaling, hlevel, hscaling, rfl⟩⟩
    · obtain ⟨l, scaling, hl, -, rfl⟩ := validate_eq_ok.mp hreport
      obtain rfl : Level.full = l := Except.ok.inj (hlevel.symm.trans hl)
      rw [(findings_report _ _ _ _).2.1]
      exact notes_residualFindings s tol settings

/-- Two residuals of the greatest size, with opposite signs: both are listed before the third one,
and a validation that asks for two rows lists them. -/
theorem worst_residuals_lead_of_opposite_signs :
    let s := withResiduals [("a", 0.5), ("b", -2.0), ("c", 2.0)]
    (∀ e ∈ s.residuals, e.isNaN = false) ∧ s.Leads 2 (s.worstResiduals 2) ∧
      s.worstResiduals 2 <+: s.worstResiduals 3 ∧
      ∃ report, validate s .none (.text "full") 0.5 { topResiduals := 2 } = .ok report ∧
        (report.findings .residuals).notes.tail =
          ["worst 1: goods.balance ('b',) residual=-2.0",
            "worst 2: goods.balance ('c',) residual=2.0"] := by
  intro s
  have hnumbers : ∀ e ∈ s.residuals, e.isNaN = false := by decide +kernel
  obtain ⟨hleads, hmore, hnotes⟩ := worst_residuals_lead s hnumbers
  obtain ⟨-, hlisted⟩ := hnotes .none (.text "full") 0.5 { topResiduals := 2 } rfl
  let row (name : String) (residual : Float) (order : Nat) : ResidualRow :=
    ⟨⟨"balance", "goods", [name], residual⟩, order⟩
  have hperm : ([row "b" (-2.0) 1, row "c" 2.0 2] ++ [row "a" 0.5 0]).Perm s.residualRows :=
    List.perm_append_comm
  have hranking := ranking_eq_of_perm hnumbers hperm (by decide +kernel)
  refine ⟨hnumbers, hleads 2, hmore 2 3 (by decide), _, rfl, ?_⟩
  rw [hlisted _ rfl, worstResiduals, hranking]
  decide +kernel

end EquationSystem

end Equilibrium

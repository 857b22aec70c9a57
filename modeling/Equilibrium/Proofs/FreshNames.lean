/-
Component names.

A component is added under a name that no other component has, and the search for such a name takes
the first free candidate. So what the search gives depends on the taken names only:

* `Model.get?_add`, `Model.get?_of_add` - what a model holds after an addition;
* `Model.freshName_least` - the name that is found is the first free candidate;
* `Model.freshName_eq_of_contains` - a model in which more names are taken gives the same name, if
  the name is still free there;
* `Model.candidate_ne_objectiveName` - a name that ends in a number is never that of the objective,
  and neither are its candidates;
* `Model.get?_putObjective` - an objective takes the place of what has its name, and of nothing
  else.
-/
import Equilibrium.EquationSystem.Objective
import Mathlib.Data.List.Nodup
import Mathlib.Data.List.Perm.Subperm
import Mathlib.Tactic.ByContra

namespace Equilibrium

theorem Table.entries_insert {α : Type} {t : Table α} {name : String} (a : α)
    (h : t.contains name = false) : (t.insert name a).entries = t.entries ++ [(name, a)] := by
  obtain ⟨entries⟩ := t
  have hseek : seek name entries = none := by
    simpa [contains, get?] using h
  show place name a entries = entries ++ [(name, a)]
  induction entries with
  | nil => rfl
  | cons entry rest ih =>
    obtain ⟨n, b⟩ := entry
    rw [seek] at hseek
    split at hseek
    · simp at hseek
    · next hne =>
      have hrest : (⟨rest⟩ : Table α).contains name = false := by
        simp [contains, get?, hseek]
      rw [place, if_neg hne, ih hrest hseek]
      rfl

theorem Table.contains_insert {α : Type} (t : Table α) (name other : String) (a : α) :
    (t.insert name a).contains other = (other == name || t.contains other) := by
  rw [contains, get?_insert]
  split
  · next h => simp [h]
  · next h => simp [h, contains]

theorem Table.get?_erase_of_ne {α : Type} (t : Table α) {name other : String}
    (h : other ≠ name) : (t.erase name).get? other = t.get? other := by
  obtain ⟨entries⟩ := t
  show seek other (drop name entries) = seek other entries
  induction entries with
  | nil => rfl
  | cons entry rest ih =>
    obtain ⟨n, b⟩ := entry
    rw [drop]
    split
    · next hn => rw [seek, if_neg (hn ▸ h)]
    · rw [seek, seek, ih]

namespace Model

variable {m m' n : Model} {name base : String} {c : Component}

/-! ### Adding a component -/

theorem contains_iff_exists : m.contains name = true ↔ ∃ x, m.get? name = some x :=
  Option.isSome_iff_exists

theorem contains_congr (h : n.get? name = m.get? name) : n.contains name = m.contains name :=
  congrArg Option.isSome h

theorem get?_eq_none (h : m.contains name = false) : m.get? name = none :=
  Option.isSome_eq_false_iff.mp h |> Option.isNone_iff_eq_none.mp

theorem add_eq_ok : m.add name c = .ok m' ↔
    m.contains name = false ∧ m' = { m with components := m.components.insert name c } := by
  rw [add]
  split
  · next h => simp [h]
  · next h => simp [h, eq_comm]

theorem get?_add (h : m.add name c = .ok m') (other : String) :
    m'.get? other = if other = name then some c else m.get? other := by
  obtain ⟨-, rfl⟩ := add_eq_ok.mp h
  exact Table.get?_insert m.components name other c

theorem get?_of_add (h : m.add name c = .ok m') {other : String} {x : Component}
    (hx : m.get? other = some x) : m'.get? other = some x := by
  rw [get?_add h, if_neg, hx]
  rintro rfl
  rw [get?_eq_none (add_eq_ok.mp h).1] at hx
  simp at hx

theorem contains_add (h : m.add name c = .ok m') (other : String) :
    m'.contains other = (other == name || m.contains other) := by
  obtain ⟨-, rfl⟩ := add_eq_ok.mp h
  exact Table.contains_insert m.components name other c

/-! ### The first free candidate -/

theorem candidate_injective (base : String) : Function.Injective (candidate base) := by
  -- a numbered candidate is longer than the base, and its number can be read off
  have hne : ∀ k, base ≠ base ++ "_" ++ toString (k + 2) := by
    intro k h
    have hlength := congrArg String.length h
    rw [String.length_append, String.length_append] at hlength
    have : "_".length = 1 := rfl
    omega
  intro j k h
  cases j with
  | zero =>
    cases k with
    | zero => rfl
    | succ k => exact absurd h (hne k)
  | succ j =>
    cases k with
    | zero => exact absurd h.symm (hne j)
    | succ k =>
      have hdigits : Nat.toDigits 10 (j + 2) = Nat.toDigits 10 (k + 2) := by
        have hlist := congrArg String.toList h
        simpa [candidate, Nat.toString_eq_ofList_toDigits] using hlist
      have hnumber := congrArg (fun ds => Nat.ofDigitChars 10 ds 0) hdigits
      simpa using hnumber

/-- Among one more candidates than there are components one is free. -/
theorem exists_free_candidate (m : Model) (base : String) :
    ∃ k ≤ m.components.size, m.contains (candidate base k) = false := by
  by_contra hnot
  have htaken : ∀ k ≤ m.components.size, candidate base k ∈ m.components.keys := by
    intro k hk
    rw [← Table.contains_iff_mem_keys]
    by_contra hfree
    exact hnot ⟨k, hk, by simpa [contains] using hfree⟩
  have hsubset : (List.range (m.components.size + 1)).map (candidate base) ⊆
      m.components.keys := by
    intro name hname
    obtain ⟨k, hk, rfl⟩ := List.mem_map.mp hname
    exact htaken k (by simpa [Nat.lt_succ_iff] using hk)
  have hnodup : ((List.range (m.components.size + 1)).map (candidate base)).Nodup :=
    List.nodup_range.map (candidate_injective base)
  have hlength := (hnodup.subperm hsubset).length_le
  simp only [Table.keys, Table.size, List.length_map, List.length_range] at hlength
  exact Nat.not_succ_le_self _ hlength

/-- The search skips candidates that are taken, and stops at a free one or when its fuel is used up.
-/
theorem searchName_spec (m : Model) (base : String) (fuel k : Nat) :
    ∃ j, m.searchName base fuel k = candidate base j ∧ k ≤ j ∧ j ≤ k + fuel ∧
      (∀ i, k ≤ i → i < j → m.contains (candidate base i) = true) ∧
      (j < k + fuel → m.contains (candidate base j) = false) := by
  induction fuel generalizing k with
  | zero => exact ⟨k, rfl, Nat.le_refl k, Nat.le_refl k, by omega, by omega⟩
  | succ fuel ih =>
    rw [searchName]
    split
    · next htaken =>
      obtain ⟨j, hj, hkj, hjf, hbefore, hfree⟩ := ih (k + 1)
      refine ⟨j, hj, by omega, by omega, ?_, fun h => hfree (by omega)⟩
      intro i hki hij
      rcases Nat.eq_or_lt_of_le hki with rfl | hlt
      · exact htaken
      · exact hbefore i hlt hij
    · next hfree => exact ⟨k, rfl, Nat.le_refl k, by omega, by omega, fun _ => by simpa using hfree⟩

/-- **The first free candidate.** The name that is found is free, and all candidates before it are
taken. -/
theorem freshName_least (m : Model) (base : String) :
    ∃ k, m.freshName base = candidate base k ∧ m.contains (candidate base k) = false ∧
      ∀ j < k, m.contains (candidate base j) = true := by
  obtain ⟨k, hk, -, hle, hbefore, hfree⟩ := searchName_spec m base m.components.size 0
  refine ⟨k, hk, ?_, fun j hj => hbefore j (Nat.zero_le j) hj⟩
  rcases Nat.lt_or_ge k m.components.size with hlt | hge
  · exact hfree (by omega)
  · -- the fuel is used up, so all candidates but the last one are taken
    obtain ⟨i, hi, hifree⟩ := exists_free_candidate m base
    have hik : i = k := by
      by_contra hne
      simp [hbefore i (Nat.zero_le i) (by omega)] at hifree
    exact hik ▸ hifree

theorem contains_freshName (m : Model) (base : String) :
    m.contains (m.freshName base) = false := by
  obtain ⟨k, hk, hfree, -⟩ := freshName_least m base
  rw [hk, hfree]

/-- Where more names are taken the search gives the same name, if that one is still free. -/
theorem freshName_eq_of_contains
    (hmore : ∀ k, m.contains (candidate base k) = true → n.contains (candidate base k) = true)
    (hfree : n.contains (m.freshName base) = false) : n.freshName base = m.freshName base := by
  obtain ⟨j, hj, -, hbeforej⟩ := freshName_least m base
  obtain ⟨k, hk, hfreek, hbeforek⟩ := freshName_least n base
  rw [hj] at hfree ⊢
  rw [hk]
  rcases Nat.lt_trichotomy k j with hlt | rfl | hgt
  · simp [hmore k (hbeforej k hlt)] at hfreek
  · rfl
  · simp [hbeforek j hgt] at hfree

/-! ### The name of the objective -/

theorem append_number_ne_objectiveName (base : String) (k : Nat) :
    base ++ toString k ≠ objectiveName := by
  intro h
  have hlist := congrArg (fun s : String => s.toList.getLast?) h
  have hdigits : (toString k).toList = Nat.toDigits 10 k := Nat.toList_repr
  simp only [String.toList_append, hdigits] at hlist
  rw [List.getLast?_append_of_ne_nil _ Nat.toDigits_ne_nil] at hlist
  have hdigit : 'e'.isDigit = true :=
    Nat.isDigit_of_mem_toDigits (by omega) (by omega) (List.mem_of_getLast? hlist)
  simp at hdigit

/-- No candidate for a name that ends in a number is the name of the objective. -/
theorem candidate_ne_objectiveName (base : String) (position k : Nat) :
    candidate (base ++ toString position) k ≠ objectiveName := by
  cases k with
  | zero => exact append_number_ne_objectiveName base position
  | succ k => exact append_number_ne_objectiveName _ (k + 2)

/-- Putting an objective in place changes what its own name stands for, and nothing else. -/
theorem get?_putObjective (m : Model) (o : Objective) (name : String) :
    (m.putObjective o).get? name =
      if name = objectiveName then some (.objective o) else m.get? name := by
  show ((m.components.erase objectiveName).insert objectiveName (.objective o)).get? name = _
  rw [Table.get?_insert]
  split
  · rfl
  · next h => exact Table.get?_erase_of_ne m.components h

theorem contains_putObjective {m : Model} {name : String} (o : Objective)
    (h : m.contains name = true) : (m.putObjective o).contains name = true := by
  obtain ⟨x, hx⟩ := contains_iff_exists.mp h
  rw [contains_iff_exists, get?_putObjective]
  split
  · exact ⟨_, rfl⟩
  · exact ⟨x, hx⟩

end Model

end Equilibrium

/-
What an exported dataset holds.

A dataset is built entry by entry. Each entry adds a constraint and a solution, and it adds a
component if its block is not yet one. So constraints and solutions stand side by side in the order
of the entries, and the components are the blocks in the order in which they first appear.

* `Dataset.extend`, `Dataset.ofEntries_concat` - what one entry adds;
* `Dataset.Covers` - a dataset that accounts for a list of entries, and for nothing else;
* `Dataset.Covers.extend` - it accounts for one more entry once this is added;
* `Dataset.covers_ofEntries` - so the dataset of some entries accounts for them;
* `Record.HasEntry`, `EquationSystem.records_have_entries` - each record with a residual has an
  entry of its own;
* `EquationSystem.export_covers_residuals` - so an export accounts for the records with a residual.
-/
import Equilibrium.Proofs.Refresh
import Equilibrium.Dataset
import Mathlib.Data.List.Basic
import Mathlib.Data.List.Forall2
import Mathlib.Data.List.Induction

namespace Equilibrium

namespace Dataset

variable {tol : Float} {entries : List ResidualEntry} {d : Dataset} {e : ResidualEntry}

/-- The ids of the components. -/
def componentIds (d : Dataset) : List String := d.components.map Component.id

/-! ### One entry -/

/-- Adds what an entry stands for: a constraint with its solution, and its block as a component
unless this is one already. -/
def extend (tol : Float) (d : Dataset) (e : ResidualEntry) : Dataset :=
  { d with
    components :=
      if e.block ∈ d.componentIds then d.components else d.components ++ [componentOf e.block]
    constraints := d.constraints ++ [constraintOf e]
    solutions := d.solutions ++ [solutionOf tol e] }

theorem componentIds_extend : (d.extend tol e).componentIds =
    if e.block ∈ d.componentIds then d.componentIds else d.componentIds ++ [e.block] := by
  rw [componentIds, extend]
  split
  · rfl
  · exact List.map_append

theorem blocksOf_concat (entries : List ResidualEntry) (e : ResidualEntry) :
    blocksOf (entries ++ [e]) =
      if e.block ∈ blocksOf entries then blocksOf entries else blocksOf entries ++ [e.block] := by
  have hinsert : blocksOf (entries ++ [e]) =
      ((Table.ofList (entries.map fun e => (e.block, ()))).insert e.block ()).keys := by
    rw [blocksOf, Table.ofList, List.map_append, List.foldl_append]
    rfl
  rw [hinsert]
  split
  · next h => exact Table.keys_insert_of_contains _ _ ((Table.contains_iff_mem_keys _ _).mpr h)
  · next h =>
    have hnot := mt (Table.contains_iff_mem_keys _ _).mp h
    exact Table.keys_insert_of_not_contains _ _ (Bool.eq_false_iff.mpr hnot)

theorem componentIds_ofEntries (id : String) (description : Option String) (tol : Float)
    (entries : List ResidualEntry) :
    (ofEntries id description tol entries).componentIds = blocksOf entries := by
  rw [componentIds, ofEntries, List.map_map]
  exact List.map_id' _

/-- A dataset is built by adding one entry after the other. -/
theorem ofEntries_concat (id : String) (description : Option String) (tol : Float)
    (entries : List ResidualEntry) (e : ResidualEntry) :
    ofEntries id description tol (entries ++ [e]) =
      (ofEntries id description tol entries).extend tol e := by
  rw [extend, componentIds_ofEntries, ofEntries, blocksOf_concat, List.map_append, List.map_append]
  split
  · rfl
  · rw [List.map_append]
    rfl

/-! ### All entries -/

/-- A constraint and a solution that stand for an entry. -/
structure Describes (tol : Float) (e : ResidualEntry) (c : Constraint) (x : Solution) : Prop where
  id_eq : c.id = constraintId e.block e.tag e.indices
  components_eq : c.components = [e.block]
  constraint_eq : x.constraint = c.id
  slack_eq : x.slack = e.residual.abs
  isBinding_eq : x.isBinding = decide (x.slack ≤ tol)

/-- A dataset that accounts for each of these entries and for nothing else. -/
structure Covers (tol : Float) (entries : List ResidualEntry) (d : Dataset) : Prop where
  constraints_length : d.constraints.length = entries.length
  solutions_length : d.solutions.length = entries.length
  describes : ∀ (k : Nat) (e : ResidualEntry), entries[k]? = some e →
    ∃ c x, d.constraints[k]? = some c ∧ d.solutions[k]? = some x ∧ Describes tol e c x
  mem_components_iff : ∀ block, block ∈ d.componentIds ↔ ∃ e ∈ entries, e.block = block
  /-- Components stand in the order in which their blocks first appear. -/
  components_sorted : d.componentIds.Pairwise fun a b =>
    (entries.map ResidualEntry.block).idxOf a < (entries.map ResidualEntry.block).idxOf b

theorem describes_of (tol : Float) (e : ResidualEntry) :
    Describes tol e (constraintOf e) (solutionOf tol e) := ⟨rfl, rfl, rfl, rfl, rfl⟩

theorem covers_empty (tol : Float) (id : String) (description : Option String) :
    Covers tol [] ⟨id, description, [], [], []⟩ where
  constraints_length := rfl
  solutions_length := rfl
  describes k e h := by cases h
  mem_components_iff block := by simp [componentIds]
  components_sorted := .nil

namespace Covers

/-- An old entry keeps its constraint and solution, and the new one gets those that are added. -/
theorem describes_extend (h : Covers tol entries d) (e : ResidualEntry) (k : Nat)
    (e' : ResidualEntry) (hk : (entries ++ [e])[k]? = some e') :
    ∃ c x, (d.extend tol e).constraints[k]? = some c ∧ (d.extend tol e).solutions[k]? = some x ∧
      Describes tol e' c x := by
  rcases Nat.lt_or_ge k entries.length with hlt | hge
  · rw [List.getElem?_append_left hlt] at hk
    obtain ⟨c, x, hc, hx, hdescribes⟩ := h.describes k e' hk
    refine ⟨c, x, ?_, ?_, hdescribes⟩
    · exact (List.getElem?_append_left (h.constraints_length ▸ hlt)).trans hc
    · exact (List.getElem?_append_left (h.solutions_length ▸ hlt)).trans hx
  · obtain ⟨hlast, rfl⟩ : k = entries.length ∧ e = e' := by
      rw [List.getElem?_append_right hge] at hk
      obtain ⟨hlt, he⟩ := List.getElem?_eq_some_iff.mp hk
      have hzero : k - entries.length = 0 := Nat.lt_one_iff.mp hlt
      simp only [hzero] at he
      exact ⟨by omega, he⟩
    refine ⟨constraintOf e, solutionOf tol e, ?_, ?_, describes_of tol e⟩
    · rw [hlast, ← h.constraints_length]
      exact List.getElem?_concat_length
    · rw [hlast, ← h.solutions_length]
      exact List.getElem?_concat_length

theorem mem_components_iff_extend (h : Covers tol entries d) (e : ResidualEntry) (block : String) :
    block ∈ (d.extend tol e).componentIds ↔ ∃ e' ∈ entries ++ [e], e'.block = block := by
  have hentries : (∃ e' ∈ entries ++ [e], e'.block = block) ↔
      block ∈ d.componentIds ∨ e.block = block := by
    simp [h.mem_components_iff, or_and_right, exists_or]
  rw [hentries, componentIds_extend]
  split
  · next hmem =>
    constructor
    · exact Or.inl
    · rintro (hold | rfl)
      · exact hold
      · exact hmem
  · rw [List.mem_append, List.mem_singleton, eq_comm (a := block)]

/-- A block that appears for the first time comes after those that appeared before. -/
theorem components_sorted_extend (h : Covers tol entries d) (e : ResidualEntry) :
    (d.extend tol e).componentIds.Pairwise fun a b =>
      ((entries ++ [e]).map ResidualEntry.block).idxOf a <
        ((entries ++ [e]).map ResidualEntry.block).idxOf b := by
  have hmem : ∀ a ∈ d.componentIds, a ∈ entries.map ResidualEntry.block := fun a ha =>
    List.mem_map.mpr ((h.mem_components_iff a).mp ha)
  have hold : ∀ a ∈ d.componentIds, ((entries ++ [e]).map ResidualEntry.block).idxOf a =
      (entries.map ResidualEntry.block).idxOf a := fun a ha => by
    rw [List.map_append, List.idxOf_append_of_mem (hmem a ha)]
  have hsorted : d.componentIds.Pairwise fun a b =>
      ((entries ++ [e]).map ResidualEntry.block).idxOf a <
        ((entries ++ [e]).map ResidualEntry.block).idxOf b :=
    h.components_sorted.imp_of_mem fun ha hb hlt => by rwa [hold _ ha, hold _ hb]
  rw [componentIds_extend]
  split
  · exact hsorted
  · next hnew =>
    refine List.pairwise_append.mpr ⟨hsorted, List.pairwise_singleton _ _, fun a ha b hb => ?_⟩
    obtain rfl := List.mem_singleton.mp hb
    -- the block did not appear before, so its first place is the last one
    have hnot : e.block ∉ entries.map ResidualEntry.block := fun hin =>
      hnew ((h.mem_components_iff _).mpr (List.mem_map.mp hin))
    rw [hold a ha, List.map_append, List.idxOf_append_of_notMem hnot]
    exact Nat.lt_of_lt_of_le (List.idxOf_lt_length_of_mem (hmem a ha)) (Nat.le_add_right _ _)

/-- A dataset accounts for an entry once this is added. -/
theorem extend (h : Covers tol entries d) (e : ResidualEntry) :
    Covers tol (entries ++ [e]) (d.extend tol e) where
  constraints_length := by
    rw [List.length_append, ← h.constraints_length]
    exact List.length_append
  solutions_length := by
    rw [List.length_append, ← h.solutions_length]
    exact List.length_append
  describes := h.describes_extend e
  mem_components_iff := h.mem_components_iff_extend e
  components_sorted := h.components_sorted_extend e

theorem nodup (h : Covers tol entries d) : d.componentIds.Nodup :=
  h.components_sorted.imp fun hlt heq => Nat.ne_of_lt hlt (congrArg (List.idxOf · _) heq)

/-- Each constraint names one component, which is the block of its entry. -/
theorem exists_component (h : Covers tol entries d) {c : Constraint} (hc : c ∈ d.constraints) :
    ∃ component ∈ d.components, c.components = [component.id] := by
  -- the constraint has the place of an entry, so it is the one that stands for this entry
  obtain ⟨k, hk⟩ := List.mem_iff_getElem?.mp hc
  obtain ⟨hlt, -⟩ := List.getElem?_eq_some_iff.mp hk
  obtain ⟨e, hentry⟩ : ∃ e, entries[k]? = some e :=
    ⟨_, List.getElem?_eq_getElem (h.constraints_length ▸ hlt)⟩
  obtain ⟨c', x, hc', -, hdescribes⟩ := h.describes k e hentry
  obtain rfl : c = c' := Option.some.inj (hk.symm.trans hc')
  have hblock := (h.mem_components_iff _).mpr ⟨_, List.mem_of_getElem? hentry, rfl⟩
  obtain ⟨component, hcomponent, hid⟩ := List.mem_map.mp hblock
  exact ⟨component, hcomponent, hdescribes.components_eq.trans (congrArg (fun id => [id]) hid.symm)⟩

end Covers

theorem covers_ofEntries (id : String) (description : Option String) (tol : Float)
    (entries : List ResidualEntry) : Covers tol entries (ofEntries id description tol entries) := by
  induction entries using List.reverseRecOn with
  | nil => exact covers_empty tol id description
  | append_singleton entries e ih =>
    rw [ofEntries_concat]
    exact ih.extend e

/-- Of blocks that take turns, each is one component. -/
example : (ofEntries "id" none 1e-6 [⟨"supply", "goods", [], 0.0⟩, ⟨"wage", "labour", [], 1.0⟩,
    ⟨"demand", "goods", [], 0.0⟩]).componentIds = ["goods", "labour"] := by decide +kernel

/-- An export with a text as its id always succeeds. -/
theorem ofSystem_text (s : EquationSystem) (id : String) (description : Option String)
    (tol : Float) : ofSystem s ⟨.text id, description.elim .none .text⟩ tol =
      .ok (ofEntries id description tol s.residuals) := by
  cases description <;> rfl

end Dataset

/-- The entry of a record: it has the tag, the block, the indices and the residual of the record. -/
structure Record.HasEntry (r : Record) (e : ResidualEntry) : Prop where
  tag_eq : e.tag = r.tag
  block_eq : e.block = r.block
  indices_eq : e.indices = r.indices
  residual_eq : r.residual? = some e.residual

namespace EquationSystem

open Dataset

variable {r : Record} {e : ResidualEntry}

theorem hasEntry_of_entryOf (h : entryOf r = some e) : r.HasEntry e := by
  rw [entryOf] at h
  cases hp : r.structured? with
  | none =>
    rw [hp] at h
    cases h
  | some p =>
    rw [hp] at h
    obtain ⟨x, hx, rfl⟩ := Option.map_eq_some_iff.mp h
    exact ⟨rfl, rfl, by rw [Record.indices, hp], by rw [Record.residual?, hp, Option.bind_some, hx]⟩

/-- Records without a structured payload, or without a residual, have no entry. -/
theorem isSome_entryOf (r : Record) : (entryOf r).isSome = r.residual?.isSome := by
  rw [entryOf, Record.residual?]
  cases r.structured? with
  | none => rfl
  | some p => exact Option.isSome_map

/-- The records with a residual and the entries stand side by side. -/
theorem records_have_entries (s : EquationSystem) :
    List.Forall₂ Record.HasEntry (s.equations.filter fun r => r.residual?.isSome) s.residuals := by
  rw [residuals]
  induction s.equations with
  | nil => exact .nil
  | cons r rest ih =>
    rw [List.filter_cons, ← isSome_entryOf]
    cases hentry : entryOf r with
    | none =>
      rw [List.filterMap_cons_none hentry, Option.isSome_none, if_neg Bool.false_ne_true]
      exact ih
    | some e =>
      rw [List.filterMap_cons_some hentry, Option.isSome_some, if_pos rfl]
      exact .cons (hasEntry_of_entryOf hentry) ih

theorem residuals_filter (s : EquationSystem) :
    { s with equations := s.equations.filter fun r => r.residual?.isSome }.residuals =
      s.residuals := by
  rw [residuals, residuals, List.filterMap_filter]
  refine List.filterMap_congr fun r _ => ?_
  rw [← isSome_entryOf]
  cases entryOf r <;> rfl

/-- **An export accounts for the records with a residual.** Each of these records has an entry, in
the order of their registration, and no other record has one. An export always succeeds. Its dataset
has one constraint and one solution for each entry, in the order of the entries; its components are
the blocks of the entries, each once and in the order in which they first appear, and each
constraint names one of them. Leaving out all records without a residual does not change it. -/
theorem export_covers_residuals (s : EquationSystem) (id : String) (description : Option String)
    (tol : Float) :
    List.Forall₂ Record.HasEntry (s.equations.filter fun r => r.residual?.isSome) s.residuals ∧
    ∃ dataset, ofSystem s ⟨.text id, description.elim .none .text⟩ tol = .ok dataset ∧
      dataset.Covers tol s.residuals ∧ dataset.componentIds.Nodup ∧
      (∀ c ∈ dataset.constraints, ∃ component ∈ dataset.components, c.components = [component.id]) ∧
      ofSystem { s with equations := s.equations.filter fun r => r.residual?.isSome }
        ⟨.text id, description.elim .none .text⟩ tol = .ok dataset := by
  have hcovers := covers_ofEntries id description tol s.residuals
  refine ⟨s.records_have_entries, _, ofSystem_text s id description tol, hcovers, hcovers.nodup,
    fun _ => hcovers.exists_component, ?_⟩
  rw [ofSystem_text, residuals_filter]

end EquationSystem

end Equilibrium

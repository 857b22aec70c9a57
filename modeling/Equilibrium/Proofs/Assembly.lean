/-
Assembling a system from blocks.

A block adds one variable for each declared instance, under its qualified name, and then its
records. In a system that holds nothing but variables added like this, positions, names and
components match: the registry and the model list the variables one by one, each under its own name.

* `Block.declared`, `Block.declaredVariables` - the declared instances of a block, and their
  variables;
* `EquationSystem.withVariables` - a system, and a model, with some variables and no other names;
* `Table.get?_ofVariables` - what a name stands for there;
* `Block.build_eq_ok` - a block that builds leaves such a system, with its variables and records at
  the end.
-/
import Equilibrium.Block
import Equilibrium.Proofs.Effects

namespace Equilibrium

open Equilibrium.Action

/-! ### Tables of variables -/

namespace Table

variable {α : Type}

/-- With no name twice, a name stands for the entries under it. -/
theorem get?_eq_some_iff {t : Table α} (hkeys : t.keys.Nodup) {name : String} {a : α} :
    t.get? name = some a ↔ (name, a) ∈ t.entries := by
  refine ⟨mem_of_get?, fun h => ?_⟩
  obtain ⟨entries⟩ := t
  change (name, a) ∈ entries at h
  show seek name entries = some a
  induction entries with
  | nil => simp at h
  | cons entry rest ih =>
    obtain ⟨n, b⟩ := entry
    obtain ⟨hn, hrest⟩ := List.nodup_cons.mp hkeys
    rw [seek]
    rcases List.mem_cons.mp h with hhead | htail
    · cases hhead
      exact if_pos rfl
    · have hne : name ≠ n := by
        rintro rfl
        exact hn (List.mem_map.mpr ⟨(name, a), htail, rfl⟩)
      rw [if_neg hne]
      exact ih hrest htail

/-- An entry for each variable under its name, made from its position. -/
def ofVariables (entry : VarId → α) (vars : List Variable) : Table α :=
  ⟨vars.mapIdx fun id v => (v.name, entry id)⟩

variable {entry : VarId → α} {vars : List Variable}

theorem keys_ofVariables (entry : VarId → α) (vars : List Variable) :
    (ofVariables entry vars).keys = vars.map Variable.name := by
  rw [keys, ofVariables]
  refine List.ext_getElem? fun id => ?_
  rw [List.getElem?_map, List.getElem?_mapIdx, List.getElem?_map, Option.map_map]
  rfl

theorem contains_ofVariables (entry : VarId → α) (vars : List Variable) (name : String) :
    (ofVariables entry vars).contains name = true ↔ name ∈ vars.map Variable.name := by
  rw [contains_iff_mem_keys, keys_ofVariables]

/-- A new variable goes to the end. -/
theorem insert_ofVariables (entry : VarId → α) {v : Variable}
    (hnew : v.name ∉ vars.map Variable.name) :
    (ofVariables entry vars).insert v.name (entry vars.length) =
      ofVariables entry (vars ++ [v]) := by
  have hfree : (ofVariables entry vars).contains v.name = false := by
    rw [Bool.eq_false_iff, Ne, contains_ofVariables]
    exact hnew
  have hentries := entries_insert (entry vars.length) hfree
  rw [ofVariables, ofVariables, List.mapIdx_concat]
  exact congrArg Table.mk hentries

theorem mem_ofVariables {name : String} {a : α} :
    (name, a) ∈ (ofVariables entry vars).entries ↔
      ∃ id v, vars[id]? = some v ∧ v.name = name ∧ entry id = a := by
  rw [ofVariables, List.mem_mapIdx]
  constructor
  · rintro ⟨id, hid, h⟩
    obtain ⟨hname, ha⟩ := Prod.mk.inj h
    exact ⟨id, vars[id], List.getElem?_eq_getElem hid, hname, ha⟩
  · rintro ⟨id, v, hv, rfl, rfl⟩
    obtain ⟨hid, rfl⟩ := List.getElem?_eq_some_iff.mp hv
    exact ⟨id, hid, rfl⟩

/-- A position is listed under the name of the variable there. -/
theorem getElem?_names_of_mem (hentry : Function.Injective entry) {name : String} {id : VarId}
    (h : (name, entry id) ∈ (ofVariables entry vars).entries) :
    (vars.map Variable.name)[id]? = some name := by
  obtain ⟨other, v, hv, rfl, hsame⟩ := mem_ofVariables.mp h
  rw [List.getElem?_map, ← hentry hsame, hv]
  rfl

/-- A name stands for the variable that has it. -/
theorem get?_ofVariables (hnames : (vars.map Variable.name).Nodup) {name : String} {a : α} :
    (ofVariables entry vars).get? name = some a ↔
      ∃ id v, vars[id]? = some v ∧ v.name = name ∧ entry id = a := by
  rw [get?_eq_some_iff (by rwa [keys_ofVariables]), mem_ofVariables]

end Table

namespace EquationSystem

/-- The system with these variables, and with no names but theirs. -/
def withVariables (s : EquationSystem) (vars : List Variable) : EquationSystem :=
  { s with
    model := s.model.map fun m => { m with components := Table.ofVariables .ofVar vars }
    vars := vars
    registry := Table.ofVariables .ofVar vars }

variable {s t : EquationSystem} {vars : List Variable}

theorem new_eq_withVariables (name : Option String) :
    new (name.map Model.empty) = (new (name.map Model.empty)).withVariables [] := by
  cases name <;> rfl

/-- A variable that is added has a new name, and goes to the end. -/
theorem addVariable_eq_ok {name : String} {lower upper start fixed : Option Number} {h : Handle}
    (hadd : (addVariable name lower upper start fixed).effect (s.withVariables vars) =
      (t, .ok h)) :
    name ∉ vars.map Variable.name ∧
      t = s.withVariables (vars ++ [Variable.added name lower upper start fixed]) := by
  cases hs : s.model with
  | none =>
    have hm : (s.withVariables vars).model = none := by rw [withVariables, hs]; rfl
    rw [effect_addVariable_noModel hm] at hadd
    cases hadd
  | some m =>
    have hm : (s.withVariables vars).model =
        some { m with components := Table.ofVariables .ofVar vars } := by
      rw [withVariables, hs]; rfl
    rw [effect_addVariable hm] at hadd
    split at hadd
    · cases hadd
    · next hfree =>
      have hnew : name ∉ vars.map Variable.name := by
        rw [← Table.contains_ofVariables Component.ofVar]
        exact hfree
      refine ⟨hnew, ?_⟩
      obtain ⟨rfl, -⟩ := Prod.mk.inj hadd
      have hname := Variable.name_added name lower upper start fixed
      have hcomponents := Table.insert_ofVariables Component.ofVar (hname ▸ hnew)
      have hregistry := Table.insert_ofVariables Handle.ofVar (hname ▸ hnew)
      rw [hname] at hcomponents hregistry
      rw [withVariable, withVariables, withVariables, hs, Option.map_some, ← hcomponents,
        ← hregistry]
      rfl

end EquationSystem

/-! ### Blocks -/

/-- The variable of an instance. -/
def VariableSpec.variable (v : VariableSpec) (indices : List String) : Variable :=
  Variable.added (qualifiedName v.name indices) (v.lower.map .real) (v.upper.map .real)
    (v.start.map .real) (v.fixed.map .real)

@[simp] theorem VariableSpec.name_variable (v : VariableSpec) (indices : List String) :
    (v.variable indices).name = qualifiedName v.name indices :=
  Variable.name_added _ _ _ _ _

namespace Block

/-- The instances of the variables of a block, in the order of their declaration. -/
def declared (b : Block) : List (VariableSpec × List String) :=
  b.vars.flatMap fun v => v.instances.map fun i => (v, i)

/-- The variables of a block. -/
def declaredVariables (b : Block) : List Variable := b.declared.map fun d => d.1.variable d.2

theorem declaredVariables_eq (b : Block) :
    b.declaredVariables = b.vars.flatMap fun v => v.instances.map v.variable := by
  rw [declaredVariables, declared, List.map_flatMap]
  simp only [List.map_map, Function.comp_def]

open EquationSystem

variable {s t : EquationSystem} {vars : List Variable}

theorem addVariables_eq_ok {v : VariableSpec} {instances : List (List String)}
    (hvars : (vars.map Variable.name).Nodup)
    (h : (addVariables v (instances.map (qualifiedName v.name))).effect (s.withVariables vars) =
      (t, .ok ())) :
    t = s.withVariables (vars ++ instances.map v.variable) ∧
      ((vars ++ instances.map v.variable).map Variable.name).Nodup := by
  induction instances generalizing vars with
  | nil =>
    obtain ⟨rfl, -⟩ : s.withVariables vars = t ∧ _ := Prod.mk.inj h
    rw [List.map_nil, List.append_nil]
    exact ⟨rfl, hvars⟩
  | cons i rest ih =>
    rw [List.map_cons, addVariables, effect_bind_eq_ok] at h
    obtain ⟨u, handle, hadd, h⟩ := h
    obtain ⟨hnew, rfl⟩ := addVariable_eq_ok hadd
    have hnodup : ((vars ++ [v.variable i]).map Variable.name).Nodup := by
      rw [List.map_append, List.nodup_append]
      refine ⟨hvars, by simp, ?_⟩
      rintro name hname _ hother rfl
      rw [List.map_singleton, List.mem_singleton, v.name_variable] at hother
      exact hnew (hother ▸ hname)
    rw [List.map_cons, ← List.singleton_append, ← List.append_assoc]
    exact ih hnodup h

theorem addAll_eq_ok {specs : List VariableSpec} (hvars : (vars.map Variable.name).Nodup)
    (h : (addAll specs).effect (s.withVariables vars) = (t, .ok ())) :
    t = s.withVariables (vars ++ specs.flatMap fun v => v.instances.map v.variable) ∧
      ((vars ++ specs.flatMap fun v => v.instances.map v.variable).map Variable.name).Nodup := by
  induction specs generalizing vars with
  | nil =>
    obtain ⟨rfl, -⟩ : s.withVariables vars = t ∧ _ := Prod.mk.inj h
    rw [List.flatMap_nil, List.append_nil]
    exact ⟨rfl, hvars⟩
  | cons v rest ih =>
    rw [addAll, effect_bind_eq_ok] at h
    obtain ⟨u, _, hadd, h⟩ := h
    obtain ⟨rfl, hnodup⟩ := addVariables_eq_ok hvars hadd
    rw [List.flatMap_cons, ← List.append_assoc]
    exact ih hnodup h

/-- A block that builds adds its variables, none of which has the name of another one, and its
records. -/
theorem build_eq_ok {b : Block} {shared : Source} (hvars : (vars.map Variable.name).Nodup)
    (h : (b.build shared).effect (s.withVariables vars) = (t, .ok ())) :
    t = ({ s with equations := s.equations ++ b.records shared } : EquationSystem).withVariables
        (vars ++ b.declaredVariables) ∧
      ((vars ++ b.declaredVariables).map Variable.name).Nodup := by
  rw [build, effect_bind_eq_ok] at h
  obtain ⟨u, _, hadd, h⟩ := h
  obtain ⟨rfl, hnodup⟩ := addAll_eq_ok hvars hadd
  rw [declaredVariables_eq]
  refine ⟨?_, hnodup⟩
  cases h
  rfl

end Block

end Equilibrium

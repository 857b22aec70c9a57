/-
What a warm start leaves.

A warm start goes through the four tables of a state and writes to the variables that are registered
under their names. A variable may have many names, so it is written to many times, and the last
entry under any of its names is the one that counts:

* `EquationSystem.lastEntry` - the last of some entries under the names of a variable;
* `State.getElem?_applyEntries_eq` - the entries of a table change a variable as the last of them
  does;
* `State.settle`, `State.vars_apply` - the variables after a warm start;
* `State.apply_apply` - a second warm start changes nothing;
* `EquationSystem.warmStart_settles` - the effect of a warm start, with everything that it leaves
  alone and the number that it returns.
-/
import Equilibrium.Proofs.WarmStarts
import Mathlib.Data.Finset.Card

namespace Equilibrium

/-! ### The last entry -/

namespace Table

variable {α : Type} {pairs : List (String × α)} {name : String}

theorem ofList_eq_gather (pairs : List (String × α)) : ofList pairs = gather some pairs := rfl

theorem mem_keys_ofList : name ∈ (ofList pairs).keys ↔ name ∈ pairs.map Prod.fst := by
  have hfold : ∀ t : Table α, (pairs.foldl (fun t p => t.insert p.1 p.2) t).contains name = true ↔
      t.contains name = true ∨ name ∈ pairs.map Prod.fst := by
    induction pairs with
    | nil => exact fun t => by simp
    | cons p rest ih =>
      intro t
      rw [List.foldl_cons, ih, contains_insert, List.map_cons, List.mem_cons, Bool.or_eq_true,
        beq_iff_eq, or_assoc, or_left_comm]
  rw [← contains_iff_mem_keys, ofList, hfold]
  simp [contains]

end Table

namespace EquationSystem

/-- The last of some entries under any of the registered names of a variable. -/
def lastEntry (s : EquationSystem) (id : VarId) (entries : List (String × Float)) : Option Float :=
  ((entries.filter fun e => s.varId? e.1 = some id).map Prod.snd).getLast?

variable {s t : EquationSystem} {id : VarId} {entries more : List (String × Float)}

theorem lastEntry_append (s : EquationSystem) (id : VarId) (entries more : List (String × Float)) :
    s.lastEntry id (entries ++ more) = (s.lastEntry id more).or (s.lastEntry id entries) := by
  rw [lastEntry, List.filter_append, List.map_append, List.getLast?_append, lastEntry, lastEntry]

theorem lastEntry_singleton (s : EquationSystem) (id : VarId) (e : String × Float) :
    s.lastEntry id [e] = if s.varId? e.1 = some id then some e.2 else none := by
  by_cases h : s.varId? e.1 = some id
  · simp [lastEntry, h]
  · simp [lastEntry, h]

/-- Which entry is the last one depends on the registry only. -/
theorem lastEntry_congr (h : t.registry = s.registry) (id : VarId)
    (entries : List (String × Float)) : t.lastEntry id entries = s.lastEntry id entries := by
  have hid : ∀ name, t.varId? name = s.varId? name := fun name => by rw [varId?, varId?, h]
  simp only [lastEntry, hid]

theorem lastEntry_isSome : (s.lastEntry id entries).isSome = true ↔
    ∃ name ∈ entries.map Prod.fst, s.varId? name = some id := by
  rw [lastEntry, List.getLast?_isSome, Ne, List.map_eq_nil_iff, List.filter_eq_nil_iff]
  simp

theorem lastEntry_eq_none (h : ∀ name ∈ entries.map Prod.fst, s.varId? name ≠ some id) :
    s.lastEntry id entries = none := by
  rw [← Option.not_isSome_iff_eq_none, lastEntry_isSome]
  rintro ⟨name, hmem, hid⟩
  exact h name hmem hid

end EquationSystem

namespace State

variable {s t : EquationSystem} {state : State} {change : Float → Variable → Variable}

/-! ### Applying the tables -/

/-- If a change undoes an earlier one, the entries of a table change a variable as the last of them
does. -/
theorem getElem?_applyEntries_eq
    (hlast : ∀ x y v, change y (change x v) = change y v) (s : EquationSystem) (t : Table Float)
    (id : VarId) :
    (applyEntries change s t).vars[id]? =
      (s.vars[id]?).map fun v => (s.lastEntry id t.entries).elim v fun x => change x v := by
  obtain ⟨entries⟩ := t
  induction entries generalizing s with
  | nil => exact Option.map_id'.symm
  | cons e rest ih =>
    have hstep : applyEntries change s ⟨e :: rest⟩ =
        applyEntries change (applyEntries change s ⟨[e]⟩) ⟨rest⟩ := rfl
    have hsame : (applyEntries change s ⟨[e]⟩).registry = s.registry :=
      applyEntries_registry change s ⟨[e]⟩
    have hcons : s.lastEntry id (e :: rest) =
        (s.lastEntry id rest).or (if s.varId? e.1 = some id then some e.2 else none) := by
      rw [← s.lastEntry_singleton, ← s.lastEntry_append]
      rfl
    rw [hstep, ih, EquationSystem.lastEntry_congr hsame, getElem?_applyEntry, hcons]
    by_cases hid : s.varId? e.1 = some id
    · rw [if_pos hid, if_pos hid, Option.map_map]
      cases s.lastEntry id rest with
      | none => rfl
      | some y => exact congrArg (fun f => (s.vars[id]?).map f) (funext (hlast e.2 y))
    · rw [if_neg hid, if_neg hid, Option.or_none]

theorem applyEntries_frame (change : Float → Variable → Variable) (s : EquationSystem)
    (t : Table Float) :
    applyEntries change s t = { s with vars := (applyEntries change s t).vars } := by
  unfold applyEntries
  induction t.toList generalizing s with
  | nil => rfl
  | cons e rest ih =>
    rw [List.foldl_cons, ih]
    split <;> rfl

/-- Applying a state changes nothing but variables. -/
theorem apply_frame (state : State) (s : EquationSystem) :
    state.apply s = { s with vars := (state.apply s).vars } := by
  rw [apply, applyEntries_frame, applyEntries_frame _ _ state.upper,
    applyEntries_frame _ _ state.lower, applyEntries_frame _ _ state.start]

/-- A variable with the last entry of each kind under any of its names. The fixed entries come after
the start values, and fix the variable. -/
def settle (state : State) (s : EquationSystem) (id : VarId) (v : Variable) : Variable where
  name := v.name
  value := ((s.lastEntry id (state.start.entries ++ state.fixed.entries)).map .real).or v.value
  fixed := v.fixed || (s.lastEntry id state.fixed.entries).isSome
  lower := ((s.lastEntry id state.lower.entries).map .real).or v.lower
  upper := ((s.lastEntry id state.upper.entries).map .real).or v.upper

theorem vars_apply (state : State) (s : EquationSystem) :
    (state.apply s).vars = s.vars.mapIdx (state.settle s) := by
  refine List.ext_getElem? fun id => ?_
  have hregistry : ∀ (change : Float → Variable → Variable) (u : EquationSystem) (t : Table Float)
      (entries : List (String × Float)),
      (applyEntries change u t).lastEntry id entries = u.lastEntry id entries :=
    fun change u t => EquationSystem.lastEntry_congr (applyEntries_registry change u t) id
  rw [List.getElem?_mapIdx, apply, getElem?_applyEntries_eq, getElem?_applyEntries_eq,
    getElem?_applyEntries_eq, getElem?_applyEntries_eq, Option.map_map, Option.map_map,
    Option.map_map]
  · simp only [hregistry]
    refine congrArg (fun f => (s.vars[id]?).map f) (funext fun v => ?_)
    simp only [settle, s.lastEntry_append, Function.comp_apply]
    cases s.lastEntry id state.start.entries <;> cases s.lastEntry id state.lower.entries <;>
      cases s.lastEntry id state.upper.entries <;> cases s.lastEntry id state.fixed.entries <;>
      simp [Variable.fix]
  -- each kind of entry overwrites what earlier ones of its kind wrote
  all_goals exact fun _ _ _ => rfl

theorem settle_settle (ht : t.registry = s.registry) (id : VarId) (v : Variable) :
    state.settle t id (state.settle s id v) = state.settle s id v := by
  simp only [settle, EquationSystem.lastEntry_congr ht, ← Option.or_assoc, Option.or_self,
    Bool.or_assoc, Bool.or_self]

/-- A state leaves a variable alone if it has no entry under any of its names. -/
theorem settle_of_no_entry {id : VarId}
    (h : ∀ name ∈ state.start.keys ++ state.lower.keys ++ state.upper.keys ++ state.fixed.keys,
      s.varId? name ≠ some id) (v : Variable) : state.settle s id v = v := by
  obtain ⟨⟨⟨hstart, hlower⟩, hupper⟩, hfixed⟩ := by
    simpa only [List.forall_mem_append] using h
  have hnone : ∀ t : Table Float, (∀ name ∈ t.keys, s.varId? name ≠ some id) →
      s.lastEntry id t.entries = none := fun t => EquationSystem.lastEntry_eq_none
  rw [settle, s.lastEntry_append, hnone _ hstart, hnone _ hlower, hnone _ hupper, hnone _ hfixed]
  simp

/-- Applying a state a second time changes nothing. -/
theorem apply_apply (state : State) (s : EquationSystem) :
    state.apply (state.apply s) = state.apply s := by
  have hvars : (state.apply (state.apply s)).vars = (state.apply s).vars := by
    rw [vars_apply, vars_apply, List.mapIdx_mapIdx]
    exact congrArg s.vars.mapIdx
      (funext fun id => funext (settle_settle (state.apply_registry s) id))
  rw [apply_frame, hvars]

/-! ### Counting the variables -/

theorem touched_congr (state : State) (h : t.registry = s.registry) :
    state.touched t = state.touched s := by
  have hid : ∀ name, t.varId? name = s.varId? name := fun name => by
    rw [EquationSystem.varId?, EquationSystem.varId?, h]
  simp only [touched, hid]

/-- A name counts once, in however many tables it stands. -/
theorem touched_eq_card (state : State) (s : EquationSystem) :
    state.touched s = ((state.start.keys ++ state.lower.keys ++ state.upper.keys ++
      state.fixed.keys).toFinset.filter fun name => (s.varId? name).isSome = true).card := by
  have hnodup : state.names.Nodup := by
    rw [names, Table.ofList_eq_gather]
    exact Table.nodup_keys_gather
  have hset : state.names.toFinset = (state.start.keys ++ state.lower.keys ++ state.upper.keys ++
      state.fixed.keys).toFinset := by
    ext name
    rw [List.mem_toFinset, List.mem_toFinset, names, Table.mem_keys_ofList, List.map_map]
    exact Iff.of_eq (congrArg (name ∈ ·) (List.map_id _))
  rw [← hset, ← List.toFinset_filter, List.toFinset_card_of_nodup (hnodup.filter _), touched,
    List.countP_eq_length_filter]

end State

namespace EquationSystem

/-- **What a warm start leaves.** It always succeeds and changes nothing but variables: the registry
with its other handles, the records, the model and all else stay. Each variable keeps its place and
its name; its value is the last one that the start values and then the fixed values give under any
of its registered names, its bounds are the last ones of their tables, and it is fixed if it was, or
if one of its names has a fixed value; without an entry it is as before. The result is the number of
names in the state that stand for variables, and a second warm start changes nothing and has the
same result. -/
theorem warmStart_settles (state : State) (s : EquationSystem) :
    ∃ t count, (warmStart state).effect s = (t, .ok count) ∧
      t = { s with vars := t.vars } ∧ t.vars.length = s.vars.length ∧
      (∀ id v, s.vars[id]? = some v → ∃ w, t.vars[id]? = some w ∧ w.name = v.name ∧
        w.value =
          ((s.lastEntry id (state.start.toList ++ state.fixed.toList)).map .real).or v.value ∧
        w.lower = ((s.lastEntry id state.lower.toList).map .real).or v.lower ∧
        w.upper = ((s.lastEntry id state.upper.toList).map .real).or v.upper ∧
        (w.fixed = true ↔ v.fixed = true ∨ ∃ name ∈ state.fixed.keys, s.varId? name = some id) ∧
        ((∀ name ∈ state.start.keys ++ state.lower.keys ++ state.upper.keys ++ state.fixed.keys,
          s.varId? name ≠ some id) → w = v)) ∧
      count = ((state.start.keys ++ state.lower.keys ++ state.upper.keys ++
        state.fixed.keys).toFinset.filter fun name => (s.varId? name).isSome = true).card ∧
      (warmStart state).effect t = (t, .ok count) := by
  refine ⟨state.apply s, state.touched s, rfl, state.apply_frame s, ?_, fun id v hv => ?_,
    state.touched_eq_card s, ?_⟩
  · rw [state.vars_apply, List.length_mapIdx]
  · have hw : (state.apply s).vars[id]? = some (state.settle s id v) := by
      rw [state.vars_apply, List.getElem?_mapIdx, hv, Option.map_some]
    refine ⟨state.settle s id v, hw, rfl, rfl, rfl, rfl, ?_,
      fun hnone => State.settle_of_no_entry hnone v⟩
    show (v.fixed || (s.lastEntry id state.fixed.entries).isSome) = true ↔ _
    rw [Bool.or_eq_true, lastEntry_isSome]
    rfl
  · show (state.apply (state.apply s), Except.ok (state.touched (state.apply s))) = _
    rw [state.apply_apply, state.touched_congr (state.apply_registry s)]

/-- The first variable has two names: the start value under the later entry and the bound under the
other name are those that stay. An opaque handle and a name that is not registered are skipped, and
do not count. -/
example :
    let y : Variable := ⟨"y", some (.int 7), false, none, none⟩
    let s : EquationSystem := { new (some (.empty "model")) with
      vars := [⟨"x", some (.int 5), false, none, none⟩, y]
      registry := ⟨[("x", .ofVar 0), ("alias", .ofVar 0), ("opaque", .foreign (.text "handle")),
        ("y", .ofVar 1)]⟩ }
    let state : State := {
      start := ⟨[("alias", 1.0), ("x", 2.0), ("opaque", 3.0)]⟩
      upper := ⟨[("alias", 4.0), ("absent", 5.0)]⟩ }
    (warmStart state).effect s =
      ({ s with vars := [⟨"x", some (.real 2.0), false, none, some (.real 4.0)⟩, y] }, .ok 2) := rfl

end EquationSystem

end Equilibrium

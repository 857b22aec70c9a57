/-
Snapshots of a system, and starting another one from them.

A snapshot holds the finite values of the registered variables. A state holds their finite bounds
and fixed values as well; a variable without a value is left out of it altogether. Applying a state
to a system touches the variables that are registered under its names and skips all other names.

Main statements:
* `State.apply_registry` - applying a state registers nothing anew.
-/
import Equilibrium.EquationSystem

namespace Equilibrium

/-- A state: start values, bounds and fixed values by registered name. -/
structure State where
  start : Table Float := Table.empty
  lower : Table Float := Table.empty
  upper : Table Float := Table.empty
  fixed : Table Float := Table.empty

namespace EquationSystem

/-- The current value of a variable as a double, if it has one. -/
def currentValue (s : EquationSystem) (id : VarId) : Except Fault (Option Float) :=
  match s.assignment id with
  | none => .ok none
  | some n => n.toReal.map some

/-- Adds the finite value of a registered variable to a snapshot. -/
def addToSnapshot (s : EquationSystem) (values : Table Float) :
    String × Handle → Except Fault (Table Float)
  | (_, .foreign _) => .ok values
  | (name, .ofVar id) => do
      match ← s.currentValue id with
      | some x => return if x.isFinite then values.insert name x else values
      | none => return values

/-- The finite values of the registered variables. -/
def snapshot (s : EquationSystem) : Except Fault (Table Float) :=
  s.registry.toList.foldlM (addToSnapshot s) Table.empty

end EquationSystem

namespace State

/-- Adds the entry of a table if there is one and it is finite. -/
def addFinite (t : Table Float) (name : String) : Option Float → Table Float
  | some x => if x.isFinite then t.insert name x else t
  | none => t

/-- A bound as a double. -/
def boundValue : Option Number → Except Fault (Option Float)
  | some n => n.toReal.map some
  | none => .ok none

/-- Adds a registered variable to a state, unless it has no value. -/
def addVariable (s : EquationSystem) (state : State) : String × Handle → Except Fault State
  | (_, .foreign _) => .ok state
  | (name, .ofVar id) => do
      match ← s.currentValue id, s.vars[id]? with
      | some x, some v =>
          let lower ← boundValue (← v.readLower)
          let upper ← boundValue (← v.readUpper)
          return {
            start := addFinite state.start name (some x)
            lower := addFinite state.lower name lower
            upper := addFinite state.upper name upper
            fixed := if v.fixed then state.fixed.insert name x else state.fixed }
      | _, _ => return state

/-- The state of a system. -/
def ofSystem (s : EquationSystem) : Except Fault State :=
  s.registry.toList.foldlM (addVariable s) {}

/-- Reads a state: four mappings from names to numbers. -/
def ofForm (form : Form) : Checked State :=
  let entry (name : String) : Checked (Table Float) :=
    Form.field form name (Form.tableOf Form.real) Table.empty
  ((entry "start").both ((entry "lower").both ((entry "upper").both (entry "fixed")))).map
    fun (start, lower, upper, fixed) => ⟨start, lower, upper, fixed⟩

/-- Changes the variables that are registered under the names of a table. -/
def applyEntries (change : Float → Variable → Variable) (s : EquationSystem)
    (t : Table Float) : EquationSystem :=
  t.toList.foldl (fun s e => match s.varId? e.1 with
    | some id => s.modifyVariable id (change e.2)
    | none => s) s

/-- Applies a state: start values, then lower and upper bounds, then fixed values. -/
def apply (state : State) (s : EquationSystem) : EquationSystem :=
  let s := applyEntries (fun x v => { v with value := some (.real x) }) s state.start
  let s := applyEntries (fun x v => { v with lower := some (.real x) }) s state.lower
  let s := applyEntries (fun x v => { v with upper := some (.real x) }) s state.upper
  applyEntries (fun x v => v.fix (some (.real x))) s state.fixed

/-- The names in a state, each once. -/
def names (state : State) : List String :=
  (Table.ofList ((state.start.keys ++ state.lower.keys ++ state.upper.keys ++ state.fixed.keys).map
    fun name => (name, ()))).keys

/-- The number of registered variables that a state names. -/
def touched (state : State) (s : EquationSystem) : Nat :=
  state.names.countP fun name => (s.varId? name).isSome

theorem applyEntries_registry (change : Float → Variable → Variable) (s : EquationSystem)
    (t : Table Float) : (applyEntries change s t).registry = s.registry := by
  unfold applyEntries
  induction t.toList generalizing s with
  | nil => rfl
  | cons e rest ih =>
      rw [List.foldl_cons, ih]
      split <;> rfl

theorem apply_registry (state : State) (s : EquationSystem) :
    (state.apply s).registry = s.registry := by
  simp [apply, applyEntries_registry]

end State

namespace EquationSystem

/-- Applies a state and counts the registered variables that it names. -/
def warmStart (state : State) : Action Nat := fun s =>
  ⟨state.apply s, [], .ok (state.touched s)⟩

end EquationSystem

end Equilibrium

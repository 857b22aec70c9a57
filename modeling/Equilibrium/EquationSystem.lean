/-
Equation systems.

A system gathers what the blocks of a model contribute: variables, the registry of names that stand
for them, and equation records. It may have a model attached, which holds the compiled components,
and a solver installed. Operations on a system are actions: they may fail, and the system that they
leave, and the remarks that they made, are known also when they fail.

Main statements:
* `Action.bind_ok`, `Action.bind_error` - how actions follow each other;
* `EquationSystem.addVariable_noModel` - without a model no variable is added and nothing changes.
-/
import Equilibrium.Record
import Equilibrium.Model
import Equilibrium.Solver

namespace Equilibrium

/-- An equation system. -/
structure EquationSystem where
  model : Option Model
  /-- Every variable that was ever added; expressions refer to them by position. -/
  vars : List Variable
  registry : Table Handle
  equations : List Record
  solver : Option Solver
  solveOptions : Table Value
  /-- What the last solve returned. -/
  results : Option Value

/-- What an action leaves: a system, its remarks, and its result or the reason why it failed. -/
structure Outcome (α : Type) where
  system : EquationSystem
  notices : List Notice
  result : Except Fault α

/-- An operation on a system. -/
def Action (α : Type) : Type := EquationSystem → Outcome α

namespace Action

variable {α β : Type}

/-- Goes on with the result of an action, on the system that it left. -/
def andThen (x : Action α) (f : α → Action β) : Action β := fun s =>
  match x s with
  | ⟨s', notices, .ok a⟩ => ⟨(f a s').system, notices ++ (f a s').notices, (f a s').result⟩
  | ⟨s', notices, .error e⟩ => ⟨s', notices, .error e⟩

instance : Monad Action where
  pure a := fun s => ⟨s, [], .ok a⟩
  bind := andThen

/-- The system itself. -/
def current : Action EquationSystem := fun s => ⟨s, [], .ok s⟩

/-- Puts another system in place. -/
def become (s : EquationSystem) : Action Unit := fun _ => ⟨s, [], .ok ()⟩

/-- Fails without changing anything. -/
def fail (e : Fault) : Action α := fun s => ⟨s, [], .error e⟩

/-- A result that does not depend on the system. -/
def lift (r : Except Fault α) : Action α := fun s => ⟨s, [], r⟩

/-- Makes remarks. -/
def remark (notices : List Notice) : Action Unit := fun s => ⟨s, notices, .ok ()⟩

theorem bind_ok {x : Action α} {f : α → Action β} {s s' : EquationSystem}
    {notices : List Notice} {a : α} (h : x s = ⟨s', notices, .ok a⟩) :
    (x >>= f) s = ⟨(f a s').system, notices ++ (f a s').notices, (f a s').result⟩ := by
  show andThen x f s = _
  simp [andThen, h]

theorem bind_error {x : Action α} {f : α → Action β} {s s' : EquationSystem}
    {notices : List Notice} {e : Fault} (h : x s = ⟨s', notices, .error e⟩) :
    (x >>= f) s = ⟨s', notices, .error e⟩ := by
  show andThen x f s = _
  simp [andThen, h]

end Action

namespace EquationSystem

/-- A system without variables and equations, on a model or without one. -/
def new (model : Option Model) : EquationSystem :=
  { model := model
    vars := []
    registry := Table.empty
    equations := []
    solver := none
    solveOptions := Table.empty
    results := none }

/-- The current values of the variables. -/
def assignment (s : EquationSystem) : Assignment := fun id => (s.vars[id]?).bind Variable.value

/-- Changes one variable. -/
def modifyVariable (s : EquationSystem) (id : VarId) (f : Variable → Variable) : EquationSystem :=
  { s with vars := s.vars.modify id f }

/-- Writes the value of one variable. -/
def assign (s : EquationSystem) (id : VarId) (value : Option Number) : EquationSystem :=
  s.modifyVariable id fun v => { v with value := value }

/-- The attached model. -/
def requireModel (s : EquationSystem) : Except Fault Model :=
  match s.model with
  | some m => .ok m
  | none => .error .noModel

/-- The variable that a registered name stands for. -/
def varId? (s : EquationSystem) (name : String) : Option VarId :=
  (s.registry.get? name).bind Handle.varId?

/-- The short description of a system. -/
def summary (s : EquationSystem) : String :=
  "Context: " ++ toString s.registry.size ++ " vars, " ++ toString s.equations.length ++
    " eqs, model=" ++ (if s.model.isSome then "set" else "none")

/-! ### Registration -/

/-- Registers a handle; a name that is known is given the new handle. -/
def registerVariable (name : String) (h : Handle) : Action Handle := fun s =>
  ⟨{ s with registry := s.registry.insert name h }, [], .ok h⟩

/-- Adds a variable to the model and registers it under its component name. -/
def addVariable (name : String) (lower upper start fixed : Option Number) : Action Handle := do
  let s ← Action.current
  let m ← Action.lift s.requireModel
  let id := s.vars.length
  let m ← Action.lift (m.add name (.ofVar id))
  let v : Variable := ⟨name, start, false, lower, upper⟩
  let v := if fixed.isSome then v.fix fixed else v
  Action.become { s with model := some m, vars := s.vars ++ [v] }
  registerVariable name (.ofVar id)

/-- The handle registered under a name. -/
def getVariable (name : String) : Action Handle := fun s =>
  ⟨s, [], match s.registry.get? name with
    | some h => .ok h
    | none => .error (.missingVariable name)⟩

/-- Appends an equation record. -/
def registerEquation (tag block : String) (content : Content) : Action Record := fun s =>
  let r : Record := ⟨tag, block, content⟩
  ⟨{ s with equations := s.equations ++ [r] }, [], .ok r⟩

/-- The position that a whole number stands for in a list of some length: negative numbers count
from the end. -/
def positionOf (length : Nat) (n : Int) : Option Nat :=
  let k := if n < 0 then n + Int.ofNat length else n
  if 0 ≤ k && k < Int.ofNat length then some k.toNat else none

/-- The record at a position. -/
def recordAt (s : EquationSystem) (n : Int) : Except Fault Record :=
  match (positionOf s.equations.length n).bind (s.equations[·]?) with
  | some r => .ok r
  | none => .error .outOfRange

/-- Puts a record in the place of the one at a position. -/
def replaceEquation (n : Int) (r : Record) : Action Unit := fun s =>
  match positionOf s.equations.length n with
  | some k => ⟨{ s with equations := s.equations.set k r }, [], .ok ()⟩
  | none => ⟨s, [], .error .outOfRange⟩

theorem addVariable_noModel {s : EquationSystem} (h : s.model = none) (name : String)
    (lower upper start fixed : Option Number) :
    addVariable name lower upper start fixed s = ⟨s, [], .error .noModel⟩ := by
  have h1 : Action.lift s.requireModel s = ⟨s, [], .error .noModel⟩ := by
    simp [Action.lift, requireModel, h]
  exact (Action.bind_ok rfl).trans (by rw [Action.bind_error h1]; rfl)

end EquationSystem

end Equilibrium

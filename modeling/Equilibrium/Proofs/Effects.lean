/-
What an action leaves.

The remarks that an action makes are for the log; what follows from it are the system that it leaves
and its result. Read like this an action is a function, and the action that goes on after another
one is applied to the system that the first one left.

* `Action.effect` - the system that an action leaves, and its result;
* `Action.effect_bind` - how the effects of two actions follow each other;
* `EquationSystem.effect_addVariable`, `EquationSystem.effect_compileEquation`,
  `EquationSystem.effect_installObjective` - the effects of the operations that change a model.
-/
import Equilibrium.EquationSystem.Objective
import Equilibrium.Proofs.PlacedEquations

namespace Equilibrium

namespace Action

variable {α β : Type} {s t : EquationSystem}

/-- The system that an action leaves, and its result. -/
def effect (x : Action α) (s : EquationSystem) : EquationSystem × Except Fault α :=
  ((x s).system, (x s).result)

@[simp] theorem effect_current : current.effect s = (s, .ok s) := rfl

@[simp] theorem effect_become : (become t).effect s = (t, .ok ()) := rfl

@[simp] theorem effect_lift (r : Except Fault α) : (lift r).effect s = (s, r) := rfl

@[simp] theorem effect_remark (notices : List Notice) : (remark notices).effect s = (s, .ok ()) :=
  rfl

/-- The second action starts from the system that the first one left, unless that one failed. -/
theorem effect_bind (x : Action α) (f : α → Action β) (s : EquationSystem) :
    (x >>= f).effect s = match x.effect s with
      | (t, .ok a) => (f a).effect t
      | (t, .error e) => (t, .error e) := by
  show ((andThen x f s).system, (andThen x f s).result) = _
  rw [andThen, effect]
  rcases x s with ⟨t, notices, e | a⟩ <;> rfl

theorem effect_bind_of_ok {x : Action α} {f : α → Action β} {a : α}
    (h : x.effect s = (t, .ok a)) : (x >>= f).effect s = (f a).effect t := by
  rw [effect_bind, h]

theorem effect_bind_of_error {x : Action α} {f : α → Action β} {e : Fault}
    (h : x.effect s = (t, .error e)) : (x >>= f).effect s = (t, .error e) := by
  rw [effect_bind, h]

/-- An action that goes on after another one succeeds only if both do. -/
theorem effect_bind_eq_ok {x : Action α} {f : α → Action β} {b : β} :
    (x >>= f).effect s = (t, .ok b) ↔
      ∃ u a, x.effect s = (u, .ok a) ∧ (f a).effect u = (t, .ok b) := by
  rw [effect_bind]
  rcases x.effect s with ⟨u, e | a⟩
  · simp
  · constructor
    · exact fun h => ⟨u, a, rfl, h⟩
    · rintro ⟨_, _, h, hf⟩
      cases h
      exact hf

theorem effect_lift_eq_ok {r : Except Fault α} {a : α} :
    (lift r).effect s = (t, .ok a) ↔ t = s ∧ r = .ok a := by
  rw [effect_lift, Prod.mk.injEq, eq_comm]

end Action

/-- What the body of an objective compiles to. A parameter source given here takes precedence over
that of the objective. -/
def ObjectiveSpec.compiled (s : EquationSystem) (params : Source) (spec : ObjectiveSpec) :
    Except Fault Expression :=
  Term.compiled (s.scope (params.orElse spec.params) (spec.indices.map Value.display))
    (Bindings.ofIndices spec.indexNames spec.indices).1 spec.body

/-- The variable that is added under a name. -/
def Variable.added (name : String) (lower upper start fixed : Option Number) : Variable :=
  if fixed.isSome then Variable.fix ⟨name, start, false, lower, upper⟩ fixed
  else ⟨name, start, false, lower, upper⟩

@[simp] theorem Variable.name_added (name : String) (lower upper start fixed : Option Number) :
    (added name lower upper start fixed).name = name := by
  rw [added]
  split <;> rfl

namespace EquationSystem

open Equilibrium.Action

variable {s : EquationSystem} {m : Model}

/-- The system with a variable added, to the model and to the registry. -/
def withVariable (s : EquationSystem) (m : Model) (name : String)
    (lower upper start fixed : Option Number) : EquationSystem :=
  { s with
    model := some { m with components := m.components.insert name (.ofVar s.vars.length) }
    vars := s.vars ++ [Variable.added name lower upper start fixed]
    registry := s.registry.insert name (.ofVar s.vars.length) }

/-- A variable is added under a name that no component has. -/
theorem effect_addVariable (hm : s.model = some m) (name : String)
    (lower upper start fixed : Option Number) :
    (addVariable name lower upper start fixed).effect s =
      if m.contains name then (s, .error (.duplicateComponent name))
      else (s.withVariable m name lower upper start fixed, .ok (.ofVar s.vars.length)) := by
  have hrequire : s.requireModel = .ok m := requireModel_eq_ok.mpr hm
  rw [addVariable, effect_bind_of_ok effect_current,
    effect_bind_of_ok ((effect_lift _).trans (by rw [hrequire]))]
  by_cases htaken : m.contains name = true
  · have hadd : m.add name (.ofVar s.vars.length) = .error (.duplicateComponent name) := by
      rw [Model.add, if_pos htaken]
    rw [if_pos htaken]
    exact effect_bind_of_error ((effect_lift _).trans (by rw [hadd]))
  · have hfree : m.contains name = false := by
      simpa using htaken
    have hadd : m.add name (.ofVar s.vars.length) =
        .ok { m with components := m.components.insert name (.ofVar s.vars.length) } :=
      Model.add_eq_ok.mpr ⟨hfree, rfl⟩
    rw [if_neg htaken, effect_bind_of_ok ((effect_lift _).trans (by rw [hadd]))]
    rfl

theorem effect_addVariable_noModel (hm : s.model = none) (name : String)
    (lower upper start fixed : Option Number) :
    (addVariable name lower upper start fixed).effect s = (s, .error .noModel) := by
  rw [effect, addVariable_noModel hm]

/-- An equation that compiles is placed under the first free name. -/
theorem effect_compileEquation (hm : s.model = some m) (equation : Term) (params : Source)
    (indices : List String) (env : Bindings) (pairing : Option Term) (name : String) :
    (compileEquation equation params indices env pairing name).effect s =
      match Equation.parts s.vars (s.scope params indices) pairing equation env with
      | .ok p => ({ s with model := some (m.place ⟨m.freshName name, p.1, p.2⟩) },
          .ok ⟨m.freshName name, p.1, p.2⟩)
      | .error e => (s, .error e) := by
  rw [effect, compileEquation_apply hm]
  cases Equation.parts s.vars (s.scope params indices) pairing equation env <;> rfl

/-- An objective is put in place after its sense and its body are known. -/
theorem effect_installObjective (hm : s.model = some m) (spec : ObjectiveSpec) (params : Source)
    (asked : Option Value) :
    (installObjective spec params asked).effect s =
      match chooseSense spec.sense asked, spec.compiled s params with
      | .ok sense, .ok body =>
          ({ s with model := some (m.installObjective sense body).1 },
            (m.installObjective sense body).2)
      | .error e, _ => (s, .error e)
      | _, .error e => (s, .error e) := by
  have hrequire : s.requireModel = .ok m := requireModel_eq_ok.mpr hm
  rw [installObjective, effect_bind_of_ok effect_current,
    effect_bind_of_ok ((effect_lift _).trans (by rw [hrequire]))]
  cases hsense : chooseSense spec.sense asked with
  | error e => exact effect_bind_of_error (effect_lift _)
  | ok sense =>
    rw [effect_bind_of_ok (effect_lift _)]
    show ((remark _ : Action Unit) >>= _).effect s = _
    rw [effect_bind_of_ok (effect_remark _)]
    show ((lift (spec.compiled s params)) >>= _).effect s = _
    cases hbody : spec.compiled s params with
    | error e => exact effect_bind_of_error (effect_lift _)
    | ok body =>
      rw [effect_bind_of_ok (effect_lift _)]
      exact (effect_bind_of_ok effect_become).trans (effect_lift _)

/-- Installing an objective leaves the model as it was or puts an objective in place. -/
theorem model_of_installObjective (hm : s.model = some m) (spec : ObjectiveSpec) (params : Source)
    (asked : Option Value) :
    ∃ m', ((installObjective spec params asked).effect s).1 = { s with model := some m' } ∧
      (m' = m ∨ ∃ o, m' = m.putObjective o) := by
  have hsame : s = { s with model := some m } := by
    rw [← hm]
  rw [effect_installObjective hm]
  cases chooseSense spec.sense asked with
  | error e => exact ⟨m, hsame, .inl rfl⟩
  | ok sense =>
    cases spec.compiled s params with
    | error e => exact ⟨m, hsame, .inl rfl⟩
    | ok body =>
      refine ⟨_, rfl, .inr ?_⟩
      rw [Model.installObjective]
      split
      · exact ⟨_, rfl⟩
      · exact ⟨_, rfl⟩

theorem effect_installObjective_noModel (hm : s.model = none) (spec : ObjectiveSpec)
    (params : Source) (asked : Option Value) :
    (installObjective spec params asked).effect s = (s, .error .noModel) := by
  have hrequire : s.requireModel = .error .noModel := by
    rw [requireModel, hm]
  rw [installObjective, effect_bind_of_ok effect_current]
  exact effect_bind_of_error ((effect_lift _).trans (by rw [hrequire]))

end EquationSystem

end Equilibrium

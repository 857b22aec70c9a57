/-
Installing an objective that fails.

An objective is installed in three steps: its sense is read and its body compiled, what the model
holds under the name of the objective is taken away, and the new objective is put in its place. A
failure in the first step leaves everything as it was. But a body that compiles to a text, say, is
refused only in the last step, when the objective that was installed before is gone.

* `EquationSystem.Refuses`, `EquationSystem.emptied` - an objective whose body is refused, and what
  is left of the system then;
* `EquationSystem.effect_of_refuses`, `EquationSystem.effect_of_not_refuses` - the two ways to fail;
* `EquationSystem.failed_objective_is_kept_unless_refused` - a failure leaves the objective alone,
  unless the body is refused;
* `EquationSystem.refused_text_loses_objective` - a body that compiles to a text.
-/
import Equilibrium.Proofs.SingleObjective

namespace Equilibrium.EquationSystem

variable {s t : EquationSystem} {m : Model} {spec : ObjectiveSpec} {params : Source}
  {asked : Option Value} {e : Fault}

/-- The sense of an objective is known and its body compiles, but to no body of an objective. -/
def Refuses (s : EquationSystem) (spec : ObjectiveSpec) (params : Source) (asked : Option Value) :
    Prop :=
  s.model.isSome = true ∧ (∃ sense, chooseSense spec.sense asked = .ok sense) ∧
    ∃ body e, spec.compiled s params = .ok body ∧ Objective.refusal? body = some e

/-- A system with an objective in the place of the installed one that was given neither a sense nor
a body. -/
def emptied (s : EquationSystem) : EquationSystem :=
  { s with model := s.model.map fun m => m.putObjective .blank }

/-- A refused objective takes the place of the installed one. -/
theorem objective?_emptied (h : s.model.isSome = true) : s.emptied.objective? = some .blank := by
  obtain ⟨m, hm⟩ := Option.isSome_iff_exists.mp h
  rw [objective?, emptied, hm]
  exact Model.objective?_putObjective m _

/-- Nothing can be read off it. -/
theorem readObjective_emptied (h : s.model.isSome = true) :
    s.emptied.readObjective = .error .badValue := by
  rw [readObjective, objective?_emptied h]
  rfl

/-- All other components stay. -/
theorem get?_emptied {name : String} (h : name ≠ Model.objectiveName) :
    (s.emptied.model.bind fun m => m.get? name) = s.model.bind fun m => m.get? name := by
  rw [emptied, Option.bind_map]
  cases s.model with
  | none => rfl
  | some m =>
    rw [Option.bind_some, Option.bind_some, Function.comp_apply, Model.get?_putObjective, if_neg h]

theorem effect_of_refuses (h : s.Refuses spec params asked) :
    ∃ e, (installObjective spec params asked).effect s = (s.emptied, .error e) := by
  obtain ⟨hmodel, ⟨sense, hsense⟩, body, e, hbody, hrefusal⟩ := h
  obtain ⟨m, hm⟩ := Option.isSome_iff_exists.mp hmodel
  refine ⟨e, ?_⟩
  rw [effect_installObjective hm, hsense, hbody, emptied, hm]
  simp only [Model.installObjective, hrefusal, Option.map_some]

theorem effect_of_not_refuses (h : ¬ s.Refuses spec params asked)
    (hfail : (installObjective spec params asked).effect s = (t, .error e)) : t = s := by
  cases hm : s.model with
  | none =>
    rw [effect_installObjective_noModel hm] at hfail
    exact (congrArg Prod.fst hfail).symm
  | some m =>
    rw [effect_installObjective hm] at hfail
    cases hsense : chooseSense spec.sense asked with
    | error e' =>
      rw [hsense] at hfail
      exact (congrArg Prod.fst hfail).symm
    | ok sense =>
      cases hbody : spec.compiled s params with
      | error e' =>
        rw [hsense, hbody] at hfail
        exact (congrArg Prod.fst hfail).symm
      | ok body =>
        -- what is left is a body that is accepted, and then nothing fails
        cases hrefusal : Objective.refusal? body with
        | some e' =>
          exact absurd ⟨by rw [hm]; rfl, ⟨sense, hsense⟩, body, e', hbody, hrefusal⟩ h
        | none =>
          rw [hsense, hbody] at hfail
          have hresult := congrArg Prod.snd hfail
          simp only [Model.installObjective, hrefusal] at hresult
          cases hresult

/-- The system that a failed installation leaves. -/
theorem system_of_failure (hfail : (installObjective spec params asked).effect s = (t, .error e)) :
    (¬ s.Refuses spec params asked → t = s) ∧ (s.Refuses spec params asked → t = s.emptied) := by
  refine ⟨fun h => effect_of_not_refuses h hfail, fun h => ?_⟩
  obtain ⟨e', hemptied⟩ := effect_of_refuses h
  rw [hemptied] at hfail
  exact (congrArg Prod.fst hfail).symm

/-- **A failed installation leaves everything as it was, unless the body is refused.** If installing
an objective fails, the system is the same as before, except where the body compiles to a value that
is no body of an objective: then an objective that was given neither a sense nor a body is in the
place of the one that was installed, nothing can be read off it, and all other components stay. The
same holds for the objective that is installed at the end of a pass over the records, and the pass
itself leaves the installed objective alone. -/
theorem failed_objective_is_kept_unless_refused (s : EquationSystem) (params : Source) :
    (∀ spec asked t e, (installObjective spec params asked).effect s = (t, .error e) →
      (¬ s.Refuses spec params asked → t = s) ∧
      (s.Refuses spec params asked → t = s.emptied ∧ t.objective? = some .blank ∧
        t.readObjective = .error .badValue ∧ ∀ name ≠ Model.objectiveName,
          (t.model.bind fun m => m.get? name) = s.model.bind fun m => m.get? name)) ∧
    (∀ spec asked, s.Refuses spec params asked →
      ∃ e, (installObjective spec params asked).effect s = (s.emptied, .error e)) ∧
    ∀ m known withObjective t e, s.model = some m →
      (s.pass params 0 m none s.equations).objective = .ok known →
      (compileEquations params withObjective).effect s = (t, .error e) →
      let u := s.withPass (s.pass params 0 m none s.equations)
      ∃ spec, known = some spec ∧ u.objective? = s.objective? ∧
        (¬ u.Refuses spec params none → t = u) ∧ (u.Refuses spec params none → t = u.emptied) := by
  refine ⟨fun spec asked t e hfail => ?_, fun spec asked => effect_of_refuses, ?_⟩
  · obtain ⟨hkept, hemptied⟩ := system_of_failure hfail
    refine ⟨hkept, fun h => ?_⟩
    obtain rfl := hemptied h
    exact ⟨rfl, objective?_emptied h.1, readObjective_emptied h.1, fun name hname =>
      get?_emptied hname⟩
  · intro m known withObjective t e hm hknown hfail u
    rw [effect_compileEquations hm] at hfail
    obtain ⟨-, spec, hspec, hlast⟩ := finish_eq_error hknown hfail
    refine ⟨spec, hspec, ?_, system_of_failure hlast⟩
    rw [objective?, objective?, hm]
    exact Model.objective?_congr get?_objectiveName_of_pass

/-- A record that asks for an objective, and has no equation. -/
def objectiveRecord (body : Term) : Record := ⟨"objective", "toy", .structured {
  equation := none
  objective := some body
  sense := .none
  indexNames := none
  indices := []
  params := .absent
  pairing := none
  constraint := none
  residual := none
  extra := Table.empty }⟩

/-- A system with an installed objective, and with a record that asks for another one. -/
def withInstalled (body : Term) : EquationSystem where
  model := some ⟨"model", ⟨[("x", .ofVar 0),
    ("cge_objective", .objective (.goal .maximize (.var 0)))]⟩⟩
  vars := [⟨"x", some (.int 3), false, none, none⟩]
  registry := ⟨[("x", .ofVar 0)]⟩
  equations := [objectiveRecord body]
  solver := none
  solveOptions := Table.empty
  results := none

/-- The installed objective stays where the other one refers to a variable that is not there. -/
theorem failed_objective_is_kept_for_missing_variable :
    let s := withInstalled (.var "y" none)
    ∃ t u, (installObjective (plainObjective (.var "y" none)) .absent none).effect s =
        (t, .error (.missingVariable "y")) ∧ t = s ∧
      (compileEquations .absent true).effect s = (u, .error (.missingVariable "y")) ∧
      u.objective? = some (.goal .maximize (.var 0)) := by
  intro s
  have hnot (spec : ObjectiveSpec) (u : EquationSystem)
      (h : spec.compiled u .absent = .error (.missingVariable "y")) :
      ¬ u.Refuses spec .absent none := by
    rintro ⟨-, -, body, e, hbody, -⟩
    rw [h] at hbody
    cases hbody
  have hfails : (installObjective (plainObjective (.var "y" none)) .absent none).effect s =
      (_, .error (.missingVariable "y")) := rfl
  have hpassFails : (compileEquations .absent true).effect s =
      (_, .error (.missingVariable "y")) := rfl
  obtain ⟨hinstall, -, hcompile⟩ := failed_objective_is_kept_unless_refused s .absent
  obtain ⟨hsame, -⟩ := hinstall _ _ _ _ hfails
  obtain ⟨spec, hspec, hkept, hpassed, -⟩ := hcompile _ _ true _ _ rfl rfl hpassFails
  cases hspec
  refine ⟨_, _, hfails, hsame (hnot _ _ rfl), hpassFails, ?_⟩
  rw [hpassed (hnot _ _ rfl), hkept]
  rfl

/-- A body that compiles to a text is refused. Before, the installed objective has a sense and the
value three; after that, nothing can be read off it. -/
theorem refused_text_loses_objective :
    let s := withInstalled (.var "x" none)
    let spec : ObjectiveSpec := ⟨.index "i", some [.text "i"], [.text "a"], .absent, .maximize⟩
    s.objective? = some (.goal .maximize (.var 0)) ∧
      s.readObjective = .ok (some (.maximize, some (.int 3))) ∧
      ∃ t e, (installObjective spec .absent none).effect s = (t, .error e) ∧
        t.objective? = some .blank ∧ t.readObjective = .error .badValue :=
  ⟨rfl, rfl, _, _, rfl, rfl, rfl⟩

end Equilibrium.EquationSystem

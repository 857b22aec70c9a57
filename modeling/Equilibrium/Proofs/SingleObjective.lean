/-
The objective of a model.

An objective is installed in one place only, under a name of its own, where it replaces the one
before it. So a model has at most one, whatever is done to the system and in whatever order. A pass
over the records asks for one objective at most: a second request ends it, also where the equation
of the record is skipped.

* `Model.ObjectiveInPlace` - the objectives among the components of a model are the installed one;
* `Operation.objectiveInPlace_perform`, `objectiveInPlace_run` - it stays like this;
* `EquationSystem.objective_of_pass` - a pass that succeeds has met one request or none, and knows
  the objective of that record;
* `single_objective` - so there is at most one objective, and it is the one that was asked for last.
-/
import Equilibrium.Proofs.Histories
import Equilibrium.Proofs.ResumedPass

namespace Equilibrium

open Equilibrium.Action

/-! ### Objectives among the components -/

namespace Table

variable {α : Type}

theorem drop_sublist (name : String) (l : List (String × α)) : (drop name l).Sublist l := by
  induction l with
  | nil => exact .slnil
  | cons entry rest ih =>
    obtain ⟨n, a⟩ := entry
    rw [drop]
    split
    · exact List.sublist_cons_self _ rest
    · exact ih.cons_cons _

/-- An insertion puts one entry in the place of another one under the same name. -/
theorem place_perm (name : String) (a : α) (l : List (String × α)) :
    (place name a l).Perm ((name, a) :: drop name l) := by
  induction l with
  | nil => exact .refl _
  | cons entry rest ih =>
    obtain ⟨n, b⟩ := entry
    rw [place, drop]
    split
    · next h => rw [h]
    · exact (ih.cons _).trans (.swap _ _ _)

/-- What is found under a name, and the entries that are left without it. -/
theorem perm_of_seek {name : String} {a : α} {l : List (String × α)}
    (h : seek name l = some a) : l.Perm ((name, a) :: drop name l) := by
  induction l with
  | nil => simp [seek] at h
  | cons entry rest ih =>
    obtain ⟨n, b⟩ := entry
    rw [seek] at h
    rw [drop]
    split at h
    · next hn =>
      cases h
      rw [if_pos hn, hn]
    · next hn =>
      rw [if_neg hn]
      exact ((ih h).cons _).trans (.swap _ _ _)

end Table

/-- The objective that a component is, if it is one. -/
def Component.objective? : Component → Option Objective
  | .objective o => some o
  | _ => none

namespace Model

/-- The objectives among some entries. -/
def objectivesIn (entries : List (String × Component)) : List Objective :=
  entries.filterMap fun entry => entry.2.objective?

theorem objectivesIn_cons (name : String) (x : Component) (rest : List (String × Component)) :
    objectivesIn ((name, x) :: rest) = x.objective?.toList ++ objectivesIn rest := by
  rw [objectivesIn, List.filterMap_cons]
  cases x.objective? <;> simp [objectivesIn]

theorem objectivesIn_drop {name : String} {entries : List (String × Component)}
    (h : objectivesIn entries = []) : objectivesIn (Table.drop name entries) = [] := by
  have hsublist : (objectivesIn (Table.drop name entries)).Sublist (objectivesIn entries) :=
    (Table.drop_sublist name entries).filterMap _
  rw [h] at hsublist
  exact List.sublist_nil.mp hsublist

/-- The objectives among the components. -/
def objectives (m : Model) : List Objective := objectivesIn m.components.entries

/-- The installed objective is the only one there is. -/
def ObjectiveInPlace (m : Model) : Prop := m.objectives = m.objective?.toList

variable {m m' : Model} {name : String} {c : Component}

theorem objective?_eq (m : Model) :
    m.objective? = (m.get? objectiveName).bind Component.objective? := by
  rw [objective?]
  cases m.get? objectiveName with
  | none => rfl
  | some x => cases x <;> rfl

theorem objective?_congr (h : m'.get? objectiveName = m.get? objectiveName) :
    m'.objective? = m.objective? := by
  rw [objective?_eq, objective?_eq, h]

/-- The objective that is put in place is the installed one. -/
theorem objective?_putObjective (m : Model) (o : Objective) :
    (m.putObjective o).objective? = some o := by
  rw [objective?_eq, putObjective_get?]
  rfl

theorem objectiveInPlace_empty (name : String) : (empty name).ObjectiveInPlace := rfl

/-- Adding anything else under a free name changes no objective. -/
theorem ObjectiveInPlace.add (h : m.ObjectiveInPlace) (hadd : m.add name c = .ok m')
    (hc : c.objective? = none) : m'.ObjectiveInPlace := by
  obtain ⟨hfree, rfl⟩ := add_eq_ok.mp hadd
  have hentries : (m.components.insert name c).entries = m.components.entries ++ [(name, c)] :=
    Table.entries_insert c hfree
  have hinstalled : ({ m with components := m.components.insert name c } : Model).objective? =
      m.objective? := by
    rw [objective?_eq, objective?_eq, get?_add hadd]
    split
    · next heq => rw [heq, get?_eq_none hfree, Option.bind_some, hc, Option.bind_none]
    · rfl
  rw [ObjectiveInPlace, hinstalled, ← h, objectives, objectives, hentries, objectivesIn,
    List.filterMap_append]
  simp [hc, objectivesIn]

theorem ObjectiveInPlace.place (h : m.ObjectiveInPlace) {c : Constraint}
    (hfree : m.contains c.name = false) : (m.place c).ObjectiveInPlace :=
  h.add (add_constraint hfree) rfl

/-- No objective is left where the installed one is taken away. -/
theorem objectives_remove (h : m.ObjectiveInPlace) : (m.remove objectiveName).objectives = [] := by
  rw [ObjectiveInPlace, objective?_eq] at h
  show objectivesIn (Table.drop objectiveName m.components.entries) = []
  cases hget : m.get? objectiveName with
  | none =>
    rw [hget] at h
    exact objectivesIn_drop h
  | some x =>
    rw [hget] at h
    -- what is taken away accounts for all objectives of the model
    have hperm : m.objectives.Perm
        (objectivesIn ((objectiveName, x) :: Table.drop objectiveName m.components.entries)) :=
      (Table.perm_of_seek hget).filterMap _
    have hlength := hperm.length_eq
    rw [h, objectivesIn_cons, List.length_append] at hlength
    exact List.length_eq_zero_iff.mp (Nat.add_eq_left.mp hlength.symm)

/-- An objective that is put in place is the only one. -/
theorem ObjectiveInPlace.putObjective (h : m.ObjectiveInPlace) (o : Objective) :
    (m.putObjective o).ObjectiveInPlace := by
  have hperm : (m.putObjective o).objectives.Perm (objectivesIn ((objectiveName, .objective o) ::
      Table.drop objectiveName (m.remove objectiveName).components.entries)) :=
    (Table.place_perm objectiveName _ _).filterMap _
  rw [objectivesIn_cons, objectivesIn_drop (objectives_remove h)] at hperm
  rw [ObjectiveInPlace, objective?_putObjective]
  exact List.perm_singleton.mp hperm

end Model

namespace EquationSystem

variable {s : EquationSystem} {params : Source} {position : Nat} {m m' : Model}
  {known objective : Option ObjectiveSpec} {r r' : Record} {records : List Record}

theorem objectiveInPlace_of_update (h : m.ObjectiveInPlace)
    (hupdate : s.update params position m r = .ok (r', m')) : m'.ObjectiveInPlace := by
  rcases update_cases hupdate with ⟨-, -, rfl⟩ | ⟨p, equation, c, -, -, -, hname, -, rfl⟩
  · exact h
  · exact h.place (hname ▸ m.contains_freshName _)

theorem objectiveInPlace_pass (h : m.ObjectiveInPlace) :
    (s.pass params position m known records).model.ObjectiveInPlace := by
  induction records generalizing position m known with
  | nil => exact h
  | cons r rest ih =>
    cases hvisit : s.visit params position m known r with
    | error e =>
      rw [pass_cons_of_error hvisit]
      exact h
    | ok result =>
      obtain ⟨r', m₁, known₁⟩ := result
      rw [pass_cons_of_ok hvisit]
      exact ih (objectiveInPlace_of_update h (visit_eq_ok.mp hvisit).2)

/-- The attached model, if there is one, has no objective but the installed one. -/
def ObjectiveInPlace (s : EquationSystem) : Prop := ∀ m, s.model = some m → m.ObjectiveInPlace

theorem ObjectiveInPlace.of_model {t : EquationSystem} (h : s.ObjectiveInPlace)
    (hmodel : t.model = s.model) : t.ObjectiveInPlace :=
  fun m hm => h m (hmodel.symm.trans hm)

theorem ObjectiveInPlace.of_some {t : EquationSystem} (hm : t.model = some m)
    (h : m.ObjectiveInPlace) : t.ObjectiveInPlace := by
  intro m' hm'
  obtain rfl := Option.some.inj (hm.symm.trans hm')
  exact h

end EquationSystem

open EquationSystem

/-- Every operation leaves one objective at most, whether it succeeds or fails. -/
theorem Operation.objectiveInPlace_perform {s : EquationSystem} (h : s.ObjectiveInPlace)
    (op : Operation) : (op.perform s).ObjectiveInPlace := by
  cases op with
  | addVariable name lower upper start fixed =>
    rw [perform]
    cases hm : s.model with
    | none =>
      rw [effect_addVariable_noModel hm]
      exact h
    | some m =>
      rw [effect_addVariable hm]
      split
      · exact h
      · next hfree =>
        have hadd : m.add name (.ofVar s.vars.length) = .ok _ :=
          Model.add_eq_ok.mpr ⟨by simpa using hfree, rfl⟩
        exact .of_some rfl ((h m hm).add hadd rfl)
  | registerVariable name handle => exact h.of_model (sharesModel_registerVariable _ _ s).model
  | registerEquation tag block content =>
    exact h.of_model (sharesModel_registerEquation _ _ _ s).model
  | replaceEquation position r => exact h.of_model (sharesModel_replaceEquation _ _ s).model
  | compileEquation equation params indices env pairing name =>
    rw [perform]
    cases hm : s.model with
    | none =>
      obtain ⟨e, he⟩ : ∃ e, EquationSystem.compileEquation equation params indices env pairing name
          s = ⟨s, [], .error e⟩ := compileEquation_noModel hm
      rw [effect, he]
      exact h
    | some m =>
      rw [effect_compileEquation hm]
      split
      · exact .of_some rfl ((h m hm).place (m.contains_freshName name))
      · exact h
  | compileEquations params withObjective =>
    rw [perform]
    cases hm : s.model with
    | none =>
      rw [effect_compileEquations_noModel hm]
      exact h
    | some m =>
      rw [effect_compileEquations hm]
      have hpass : (s.pass params 0 m none s.equations).model.ObjectiveInPlace :=
        objectiveInPlace_pass (h m hm)
      obtain ⟨m', hsystem, rfl | ⟨o, rfl⟩⟩ :=
        s.system_of_finish params withObjective (s.pass params 0 m none s.equations)
      · exact .of_some (congrArg EquationSystem.model hsystem) hpass
      · exact .of_some (congrArg EquationSystem.model hsystem) (hpass.putObjective o)
  | installObjective spec params asked =>
    rw [perform]
    cases hm : s.model with
    | none =>
      rw [effect_installObjective_noModel hm]
      exact h
    | some m =>
      obtain ⟨m', hsystem, rfl | ⟨o, rfl⟩⟩ := model_of_installObjective hm spec params asked
      · exact .of_some (congrArg EquationSystem.model hsystem) (h m' hm)
      · exact .of_some (congrArg EquationSystem.model hsystem) ((h m hm).putObjective o)
  | solve request => exact h.of_model (sharesModel_solve request s).model
  | warmStart state => exact h.of_model (sharesModel_warmStart state s).model

/-- And so does any number of operations. -/
theorem objectiveInPlace_run {s : EquationSystem} (h : s.ObjectiveInPlace)
    (ops : List Operation) : (run s ops).ObjectiveInPlace := by
  induction ops generalizing s with
  | nil => exact h
  | cons op rest ih => exact ih (op.objectiveInPlace_perform h)

/-! ### Requests -/

/-- The objective that a record asks for, with its payload. -/
def Record.objectiveRequest? (r : Record) : Option (Payload × Term) :=
  r.structured?.bind fun p => p.objective.map fun body => (p, body)

/-- The objective to be installed for a payload. -/
def Payload.objectiveSpec (p : Payload) (body : Term) (sense : Sense) : ObjectiveSpec where
  body := body
  indexNames := p.indexNames.map (·.map .text)
  indices := p.indices.map .text
  params := p.params
  sense := sense

/-- A request is met if there was none before it and its sense is known. -/
theorem Record.nextObjective_eq (known : Option ObjectiveSpec) (r : Record) :
    r.nextObjective known = match r.objectiveRequest? with
      | none => .ok known
      | some (p, body) =>
          if known.isSome then .error .multipleObjectives
          else (Sense.ofValue p.sense).map fun sense => some (p.objectiveSpec body sense) := by
  rw [Record.nextObjective, objectiveRequest?]
  cases r.structured? with
  | none => rfl
  | some p =>
    rw [Option.bind_some]
    show EquationSystem.nextObjective known p = _
    rw [EquationSystem.nextObjective]
    cases p.objective <;> rfl

namespace EquationSystem

variable {s : EquationSystem} {params : Source} {position : Nat} {m : Model}
  {known objective : Option ObjectiveSpec} {records : List Record}

/-- A pass that succeeds meets no request where an objective is known already, and one at most where
none is; then it knows the objective that the request is for. -/
theorem objective_of_pass
    (h : (s.pass params position m known records).objective = .ok objective) :
    records.filterMap Record.objectiveRequest? = [] ∧ objective = known ∨
      ∃ p body sense, known = none ∧
        records.filterMap Record.objectiveRequest? = [(p, body)] ∧
        Sense.ofValue p.sense = .ok sense ∧ objective = some (p.objectiveSpec body sense) := by
  induction records generalizing position m known with
  | nil =>
    cases h
    exact .inl ⟨rfl, rfl⟩
  | cons r rest ih =>
    cases hvisit : s.visit params position m known r with
    | error e =>
      rw [pass_cons_of_error hvisit] at h
      cases h
    | ok result =>
      obtain ⟨r', m₁, known₁⟩ := result
      rw [pass_cons_of_ok hvisit] at h
      have hlater := ih h
      have hnext := (visit_eq_ok.mp hvisit).1
      rw [Record.nextObjective_eq] at hnext
      cases hrequest : r.objectiveRequest? with
      | none =>
        rw [hrequest] at hnext
        cases hnext
        rw [List.filterMap_cons_none hrequest]
        exact hlater
      | some request =>
        obtain ⟨p, body⟩ := request
        rw [hrequest] at hnext
        change (if known.isSome then _ else _) = _ at hnext
        split at hnext
        · cases hnext
        · next hknown =>
          obtain ⟨sense, hsense, rfl⟩ := map_eq_ok.mp hnext
          -- from here on an objective is known, so the rest of the pass meets no request
          rcases hlater with ⟨hnone, rfl⟩ | ⟨-, -, -, hfalse, -⟩
          · rw [List.filterMap_cons_some hrequest, hnone]
            exact .inr ⟨p, body, sense, by simpa using hknown, rfl, hsense, rfl⟩
          · cases hfalse

theorem compiled_objectiveSpec (s : EquationSystem) (params : Source) (p : Payload) (body : Term)
    (sense : Sense) : (p.objectiveSpec body sense).compiled s params =
      body.compiled (s.scope (if params.isAbsent then p.params else params) p.indices)
        p.indexBindings := by
  rw [ObjectiveSpec.compiled, ← p.bindings_fst]
  show Term.compiled (s.scope (params.orElse p.params) ((p.indices.map .text).map Value.display)) _
    _ = _
  rw [Value.display_texts]
  rfl

/-- Installing an objective succeeds if its body compiles; then the body is that of the objective of
the system. -/
theorem objective?_of_installObjective {t : EquationSystem} {spec : ObjectiveSpec}
    (h : (installObjective spec params none).effect s = (t, .ok ())) :
    ∃ e, spec.compiled s params = .ok e ∧
      t.objective? = some (.of spec.sense e) := by
  cases hm : s.model with
  | none =>
    rw [effect_installObjective_noModel hm] at h
    cases h
  | some m =>
    rw [effect_installObjective hm] at h
    cases hbody : spec.compiled s params with
    | error e =>
      rw [hbody] at h
      cases h
    | ok e =>
      rw [hbody] at h
      change (_, (m.installObjective spec.sense e).2) = (t, .ok ()) at h
      obtain ⟨rfl, hresult⟩ := Prod.mk.inj h
      refine ⟨e, rfl, ?_⟩
      show (m.installObjective spec.sense e).1.objective? = _
      rw [Model.installObjective] at hresult ⊢
      cases hrefusal : Objective.refusal? e with
      | some f =>
        rw [hrefusal] at hresult
        cases hresult
      | none => exact Model.objective?_putObjective m _

/-- Compiling the equations succeeds if no record asks for an objective, which leaves the installed
one, or if one record does and its objective can be installed, provided that this is wanted. -/
theorem objective?_of_compileEquations {t : EquationSystem} {withObjective : Bool}
    (h : (compileEquations params withObjective).effect s = (t, .ok ())) :
    s.equations.filterMap Record.objectiveRequest? = [] ∧ t.objective? = s.objective? ∨
      ∃ p body sense, s.equations.filterMap Record.objectiveRequest? = [(p, body)] ∧
        Sense.ofValue p.sense = .ok sense ∧
        (withObjective = true → ∃ e, (p.objectiveSpec body sense).compiled s params = .ok e ∧
          t.objective? = some (.of sense e)) ∧
        (withObjective = false → t.objective? = s.objective?) := by
  obtain ⟨m, objective, hm, hobjective, hfinish⟩ := finish_of_compileEquations h
  -- the pass itself leaves the installed objective alone
  have hkept : (s.withPass (s.pass params 0 m none s.equations)).objective? = s.objective? := by
    rw [objective?, objective?, hm]
    exact Model.objective?_congr get?_objectiveName_of_pass
  rcases objective_of_pass hobjective with
    ⟨hnone, rfl⟩ | ⟨p, body, sense, -, hone, hsense, rfl⟩
  · rw [finish_of_none hobjective] at hfinish
    cases hfinish
    exact .inl ⟨hnone, hkept⟩
  · refine .inr ⟨p, body, sense, hone, hsense, ?_, ?_⟩
    · rintro rfl
      rw [finish_true hobjective] at hfinish
      obtain ⟨e, he, hinstalled⟩ := objective?_of_installObjective hfinish
      exact ⟨e, he, hinstalled⟩
    · rintro rfl
      rw [finish_false hobjective] at hfinish
      cases hfinish
      exact hkept

end EquationSystem

/-- **At most one objective.** In every history of a system, its model has one objective at most. If
compiling the equations then succeeds, at most one record asks for an objective, wherever it stands
and whether or not its equation is compiled. That one is installed, if this is wanted, with its own
indices and bindings; otherwise the installed objective stays. -/
theorem single_objective (s : EquationSystem) (ops : List Operation) :
    (s.ObjectiveInPlace → ∀ m, (run s ops).model = some m → m.objectives.length ≤ 1) ∧
    ∀ params withObjective t,
      (compileEquations params withObjective).effect (run s ops) = (t, .ok ()) →
      let requests := (run s ops).equations.filterMap Record.objectiveRequest?
      requests.length ≤ 1 ∧
      (withObjective = true → ∀ p body, requests = [(p, body)] →
        ∃ sense e, Sense.ofValue p.sense = .ok sense ∧
          body.compiled ((run s ops).scope (if params.isAbsent then p.params else params) p.indices)
            p.indexBindings = .ok e ∧
          t.objective? = some (.of sense e)) ∧
      (requests = [] ∨ withObjective = false → t.objective? = (run s ops).objective?) := by
  constructor
  · intro hs m hm
    rw [objectiveInPlace_run hs ops m hm]
    cases m.objective? <;> simp
  · intro params withObjective t ht
    rcases objective?_of_compileEquations ht with
      ⟨hnone, hkept⟩ | ⟨p, body, sense, hone, hsense, hinstalled, hkept⟩
    · rw [hnone]
      exact ⟨by simp, by simp, fun _ => hkept⟩
    · rw [hone]
      refine ⟨Nat.le_refl 1, fun hwanted p' body' h => ?_, fun h => hkept (h.resolve_left ?_)⟩
      · cases h
        obtain ⟨e, he, ho⟩ := hinstalled hwanted
        exact ⟨sense, e, hsense, (compiled_objectiveSpec _ params p body sense).symm.trans he, ho⟩
      · simp

/-- An objective at an instance, beside an equation that carries a constraint already. -/
def compiledElsewhere : Payload where
  equation := some (.eq (.var "x" (some [.free "i"])) (.const (.number (.int 1))))
  objective := some (.var "x" (some [.free "i"]))
  sense := .text " Minimise "
  indexNames := some ["i"]
  indices := ["a"]
  params := .absent
  pairing := none
  constraint := some (.foreign (.text "compiled elsewhere"))
  residual := none
  extra := Table.empty

/-- A system with that record, on a model with another objective. -/
def withOtherObjective : EquationSystem where
  model := some ⟨"model", ⟨[("x_a", .ofVar 0),
    ("cge_objective", .objective (.goal .minimize (.number (.int 1))))]⟩⟩
  vars := [⟨"x_a", none, false, none, none⟩]
  registry := ⟨[("x_a", .ofVar 0)]⟩
  equations := [⟨"welfare", "toy", .structured compiledElsewhere⟩]
  solver := none
  solveOptions := Table.empty
  results := none

/-- The equation of the only record is skipped, but its objective is installed, in the place of the
other one. -/
theorem single_objective_of_skipped_record :
    let s := new (some (.empty "model"))
    let ops : List Operation := [.addVariable "x_a" none none none none,
      .registerEquation "welfare" "toy" (.structured compiledElsewhere),
      .installObjective (plainObjective (.const (.number (.int 1)))) .absent none]
    s.ObjectiveInPlace ∧ run s ops = withOtherObjective ∧
      (∀ m, withOtherObjective.model = some m → m.objectives.length ≤ 1) ∧
      ∃ t, (compileEquations .absent true).effect withOtherObjective = (t, .ok ()) ∧
        t.objective? = some (.goal .minimize (.var 0)) := by
  intro s ops
  have hs : s.ObjectiveInPlace := .of_some rfl (Model.objectiveInPlace_empty "model")
  have hrun : run s ops = withOtherObjective := rfl
  have hresult : ((compileEquations .absent true).effect withOtherObjective).2 = .ok () := rfl
  obtain ⟨hone, hinstalled⟩ := single_objective s ops
  rw [hrun] at hone hinstalled
  obtain ⟨sense, e, hsense, he, ho⟩ :=
    (hinstalled .absent true _ (Prod.ext rfl hresult)).2.1 rfl compiledElsewhere _ rfl
  have hminimize : Sense.ofValue compiledElsewhere.sense = .ok .minimize := rfl
  have hvar : Term.compiled (withOtherObjective.scope .absent ["a"])
      compiledElsewhere.indexBindings (.var "x" (some [.free "i"])) = .ok (.var 0) := rfl
  obtain rfl : Sense.minimize = sense := Except.ok.inj (hminimize.symm.trans hsense)
  obtain rfl : Expression.var 0 = e := Except.ok.inj (hvar.symm.trans he)
  exact ⟨hs, hrun, hone hs, _, Prod.ext rfl hresult, ho⟩

end Equilibrium

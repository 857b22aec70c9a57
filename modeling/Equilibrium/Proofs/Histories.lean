/-
What stays in a model.

Variables, constraints and the objective share the names of one model. Whatever is done to a system,
in any order and under any names, and whether it succeeds or fails, the components that were created
on the way stay where they are, with one exception: an objective takes the place of any component
that has its name.

* `Operation`, `Operation.perform`, `Operation.created` - what may be done to a system, what it
  leaves and which components it creates;
* `EquationSystem.Keeps` - the components of a system and the names of its variables are those of a
  later one, the name of the objective apart;
* `EquationSystem.SharesModel` - a later system has the same components and names, which is so after
  a solve and after a warm start;
* `Operation.keeps_perform`, `keeps_run` - one operation keeps them, and so does a history of
  operations;
* `created_components_stay` - so each created component is held under its own name, or an objective
  has taken its place;
* `objective_takes_place_of_variable` - which does happen.
-/
import Equilibrium.Proofs.PointwisePass
import Equilibrium.Snapshot

namespace Equilibrium

open Equilibrium.Action EquationSystem

/-! ### Histories -/

/-- What may be done to a system. -/
inductive Operation
  | addVariable (name : String) (lower upper start fixed : Option Number)
  | registerVariable (name : String) (h : Handle)
  | registerEquation (tag block : String) (content : Content)
  | replaceEquation (position : Int) (r : Record)
  | compileEquation (equation : Term) (params : Source) (indices : List String) (env : Bindings)
      (pairing : Option Term) (name : String)
  | compileEquations (params : Source) (withObjective : Bool)
  | installObjective (spec : ObjectiveSpec) (params : Source) (asked : Option Value)
  | solve (request : Option SolverRequest)
  | warmStart (state : State)

namespace Operation

/-- The system that an operation leaves, whether it succeeds or fails. -/
def perform (s : EquationSystem) : Operation → EquationSystem
  | addVariable name lower upper start fixed =>
      ((EquationSystem.addVariable name lower upper start fixed).effect s).1
  | registerVariable name h => ((EquationSystem.registerVariable name h).effect s).1
  | registerEquation tag block content =>
      ((EquationSystem.registerEquation tag block content).effect s).1
  | replaceEquation position r => ((EquationSystem.replaceEquation position r).effect s).1
  | compileEquation equation params indices env pairing name =>
      ((EquationSystem.compileEquation equation params indices env pairing name).effect s).1
  | compileEquations params withObjective =>
      ((EquationSystem.compileEquations params withObjective).effect s).1
  | installObjective spec params asked =>
      ((EquationSystem.installObjective spec params asked).effect s).1
  | solve request => ((EquationSystem.solve request).effect s).1
  | warmStart state => ((EquationSystem.warmStart state).effect s).1

/-- The variable or the constraints that an operation creates. -/
def created (s : EquationSystem) : Operation → List Component
  | addVariable name lower upper start fixed =>
      match ((EquationSystem.addVariable name lower upper start fixed).effect s).2 with
      | .ok (.ofVar id) => [.ofVar id]
      | _ => []
  | compileEquation equation params indices env pairing name =>
      match ((EquationSystem.compileEquation equation params indices env pairing name).effect s).2
        with
      | .ok c => [.constraint c]
      | _ => []
  | compileEquations params withObjective =>
      (newConstraints s.equations
        ((EquationSystem.compileEquations params withObjective).effect s).1.equations).map
          .constraint
  | _ => []

end Operation

/-- The system after one operation after the other. -/
def run (s : EquationSystem) (ops : List Operation) : EquationSystem :=
  ops.foldl Operation.perform s

/-- The components that are created on the way. -/
def createdIn (s : EquationSystem) : List Operation → List Component
  | [] => []
  | op :: rest => op.created s ++ createdIn (op.perform s) rest

/-! ### What later systems keep -/

/-- A component of `m` is one of `m'`, or it has the name of the objective and gave way to one. -/
def Model.Keeps (m m' : Model) : Prop :=
  ∀ name x, m.get? name = some x → m'.get? name = some x ∨
    name = objectiveName ∧ ∃ o, m'.get? objectiveName = some (.objective o)

namespace Model.Keeps

variable {m m' m'' : Model}

theorem refl (m : Model) : m.Keeps m := fun _ _ h => .inl h

theorem trans (h : m.Keeps m') (h' : m'.Keeps m'') : m.Keeps m'' := by
  intro name x hx
  rcases h name x hx with hx' | ⟨rfl, o, ho⟩
  · exact h' name x hx'
  · -- an objective stays, or gives way to another one
    rcases h' objectiveName _ ho with ho' | hlater
    · exact .inr ⟨rfl, o, ho'⟩
    · exact .inr hlater

theorem add {name : String} {c : Component} (h : m.add name c = .ok m') : m.Keeps m' := by
  intro other x hx
  exact .inl (get?_of_add h hx)

theorem putObjective (m : Model) (o : Objective) : m.Keeps (m.putObjective o) := by
  intro name x hx
  by_cases hname : name = objectiveName
  · exact .inr ⟨hname, o, putObjective_get? m o⟩
  · rw [get?_putObjective, if_neg hname]
    exact .inl hx

end Model.Keeps

namespace EquationSystem

variable {s t u : EquationSystem} {m : Model}

/-- The name of a variable. -/
def nameOf (s : EquationSystem) (id : VarId) : Option String := (s.vars[id]?).map Variable.name

/-- The own name of a component. -/
def ownName (s : EquationSystem) : Component → Option String
  | .ofVar id => s.nameOf id
  | .constraint c => some c.name
  | .objective _ => some Model.objectiveName

/-- The components of the model of `s` and the names of its variables are those of `t`, unless an
objective has taken the place of a component. -/
structure Keeps (s t : EquationSystem) : Prop where
  components : ∀ m, s.model = some m → ∃ m', t.model = some m' ∧ m.Keeps m'
  names : ∀ id name, s.nameOf id = some name → t.nameOf id = some name

theorem Keeps.refl (s : EquationSystem) : s.Keeps s :=
  ⟨fun m hm => ⟨m, hm, Model.Keeps.refl m⟩, fun _ _ h => h⟩

theorem Keeps.trans (hst : s.Keeps t) (htu : t.Keeps u) : s.Keeps u := by
  refine ⟨fun m hm => ?_, fun id name h => htu.names id name (hst.names id name h)⟩
  obtain ⟨m', hm', hkeeps⟩ := hst.components m hm
  obtain ⟨m'', hm'', hkeeps'⟩ := htu.components m' hm'
  exact ⟨m'', hm'', hkeeps.trans hkeeps'⟩

theorem Keeps.of_model {m' : Model} (hm : s.model = some m) (hm' : t.model = some m')
    (hkeeps : m.Keeps m') (hvars : t.vars = s.vars) : s.Keeps t := by
  refine ⟨fun k hk => ?_, fun id name h => ?_⟩
  · obtain rfl := Option.some.inj (hm.symm.trans hk)
    exact ⟨m', hm', hkeeps⟩
  · rw [nameOf, hvars]
    exact h

/-- `t` has the model of `s`, and the same names for its variables. -/
structure SharesModel (s t : EquationSystem) : Prop where
  model : t.model = s.model
  names : ∀ id, t.nameOf id = s.nameOf id

theorem SharesModel.refl (s : EquationSystem) : s.SharesModel s := ⟨rfl, fun _ => rfl⟩

theorem SharesModel.trans (hst : s.SharesModel t) (htu : t.SharesModel u) : s.SharesModel u :=
  ⟨htu.model.trans hst.model, fun id => (htu.names id).trans (hst.names id)⟩

theorem SharesModel.of_eq (hmodel : t.model = s.model) (hvars : t.vars = s.vars) :
    s.SharesModel t :=
  ⟨hmodel, fun id => by rw [nameOf, nameOf, hvars]⟩

theorem SharesModel.keeps (h : s.SharesModel t) : s.Keeps t :=
  ⟨fun m hm => ⟨m, h.model.trans hm, Model.Keeps.refl m⟩,
    fun id _ hname => (h.names id).trans hname⟩

theorem sharesModel_modifyVariable (s : EquationSystem) (id : VarId) {f : Variable → Variable}
    (hf : ∀ v, (f v).name = v.name) : s.SharesModel (s.modifyVariable id f) := by
  refine ⟨rfl, fun other => ?_⟩
  rw [nameOf, nameOf, modifyVariable, List.getElem?_modify]
  cases s.vars[other]? with
  | none => rfl
  | some v =>
    by_cases heq : id = other
    · simp [heq, hf]
    · simp [heq]

end EquationSystem

/-! ### Actions that keep the model -/

/-- Whatever system the action is applied to, and whether it succeeds or fails. -/
def Action.Keeps {α : Type} (x : Action α) : Prop := ∀ s : EquationSystem, s.Keeps (x.effect s).1

/-- The action changes no component and no name, whether it succeeds or fails. -/
def Action.SharesModel {α : Type} (x : Action α) : Prop :=
  ∀ s : EquationSystem, s.SharesModel (x.effect s).1

theorem Action.SharesModel.bind {α β : Type} {x : Action α} {f : α → Action β}
    (hx : x.SharesModel) (hf : ∀ a, (f a).SharesModel) : (x >>= f).SharesModel := by
  intro s
  have hfirst := hx s
  rw [effect_bind]
  rcases heffect : x.effect s with ⟨t, e | a⟩
  · rw [heffect] at hfirst
    exact hfirst
  · rw [heffect] at hfirst
    exact hfirst.trans (hf a t)

namespace EquationSystem

theorem sharesModel_registerVariable (name : String) (h : Handle) :
    (registerVariable name h).SharesModel := fun _ => SharesModel.of_eq rfl rfl

theorem sharesModel_registerEquation (tag block : String) (content : Content) :
    (registerEquation tag block content).SharesModel := fun _ => SharesModel.of_eq rfl rfl

theorem sharesModel_replaceEquation (position : Int) (r : Record) :
    (replaceEquation position r).SharesModel := by
  intro s
  show s.SharesModel (replaceEquation position r s).system
  rw [replaceEquation]
  split <;> exact SharesModel.of_eq rfl rfl

theorem sharesModel_writeComponents (m : Model) (writes : List (String × Option Number)) :
    (writeComponents m writes).SharesModel := by
  intro s
  induction writes generalizing s with
  | nil => exact SharesModel.refl s
  | cons write rest ih =>
    obtain ⟨name, value⟩ := write
    show s.SharesModel (writeComponents m ((name, value) :: rest) s).system
    rw [writeComponents]
    cases hwrite : writeComponent m s name value with
    | error e => exact SharesModel.refl s
    | ok t =>
      have hfirst : s.SharesModel t := by
        rw [writeComponent] at hwrite
        split at hwrite
        · next id _ =>
          cases hwrite
          exact s.sharesModel_modifyVariable id fun v => rfl
        · simp at hwrite
      exact hfirst.trans (ih t)

/-- Whatever the solver does before it fails, it writes to variables only. -/
theorem sharesModel_runSolver (m : Model) (solver : Solver) :
    (runSolver m solver).SharesModel :=
  Action.SharesModel.bind (fun s => SharesModel.refl s) fun _ =>
    (sharesModel_writeComponents m _).bind fun _ u => SharesModel.refl u

theorem sharesModel_solve (request : Option SolverRequest) : (solve request).SharesModel := by
  have hset : ∀ r, (setSolver r).SharesModel := by
    intro r s
    show s.SharesModel ((setSolver r) s).system
    rw [setSolver]
    split <;> exact SharesModel.of_eq rfl rfl
  have hresiduals : updateResiduals.SharesModel := fun s => SharesModel.of_eq rfl rfl
  have hresults : ∀ v, (keepResults v).SharesModel := fun v s => SharesModel.of_eq rfl rfl
  refine Action.SharesModel.bind (fun s => SharesModel.refl s) fun s => ?_
  refine Action.SharesModel.bind (fun t => SharesModel.refl t) fun m => ?_
  obtain _ | r := request
  on_goal 2 => refine (hset r).bind fun _ => ?_
  -- what is done after the choice of a solver does not depend on that choice
  all_goals
    refine Action.SharesModel.bind (fun t => SharesModel.refl t) fun t => ?_
    cases t.solver with
    | none => exact fun u => SharesModel.refl u
    | some solver =>
      exact (sharesModel_runSolver m solver).bind fun v => (hresults v).bind fun _ =>
        hresiduals.bind fun _ u => SharesModel.refl u

/-- A warm start writes values and bounds of variables. -/
theorem sharesModel_applyEntries {change : Float → Variable → Variable}
    (hchange : ∀ x v, (change x v).name = v.name) (s : EquationSystem) (entries : Table Float) :
    s.SharesModel (State.applyEntries change s entries) := by
  rw [State.applyEntries]
  induction entries.toList generalizing s with
  | nil => exact SharesModel.refl s
  | cons entry rest ih =>
    rw [List.foldl_cons]
    refine SharesModel.trans ?_ (ih _)
    cases s.varId? entry.1 with
    | none => exact SharesModel.refl s
    | some id => exact s.sharesModel_modifyVariable id (hchange entry.2)

theorem sharesModel_warmStart (state : State) : (warmStart state).SharesModel := by
  intro s
  show s.SharesModel (state.apply s)
  rw [State.apply]
  refine (((sharesModel_applyEntries ?_ s state.start).trans
    (sharesModel_applyEntries ?_ _ state.lower)).trans
    (sharesModel_applyEntries ?_ _ state.upper)).trans
    (sharesModel_applyEntries ?_ _ state.fixed)
  all_goals
    intro x v
    rfl

theorem keeps_addVariable (name : String) (lower upper start fixed : Option Number) :
    (addVariable name lower upper start fixed).Keeps := by
  intro s
  cases hm : s.model with
  | none =>
    rw [effect_addVariable_noModel hm]
    exact Keeps.refl s
  | some m =>
    rw [effect_addVariable hm]
    split
    · exact Keeps.refl s
    · next hfree =>
      have hadd : m.add name (.ofVar s.vars.length) =
          .ok { m with components := m.components.insert name (.ofVar s.vars.length) } :=
        Model.add_eq_ok.mpr ⟨by simpa using hfree, rfl⟩
      refine ⟨fun k hk => ?_, fun id own hown => ?_⟩
      · obtain rfl := Option.some.inj (hm.symm.trans hk)
        exact ⟨_, rfl, Model.Keeps.add hadd⟩
      · obtain ⟨v, hv, hname⟩ := Option.map_eq_some_iff.mp hown
        show Option.map _ (s.vars ++ [_])[id]? = _
        rw [List.getElem?_append_left (List.getElem?_eq_some_iff.mp hv).1, hv, ← hname]
        rfl

theorem keeps_compileEquation (equation : Term) (params : Source) (indices : List String)
    (env : Bindings) (pairing : Option Term) (name : String) :
    (compileEquation equation params indices env pairing name).Keeps := by
  intro s
  cases hm : s.model with
  | none =>
    obtain ⟨e, he⟩ : ∃ e, compileEquation equation params indices env pairing name s =
        ⟨s, [], .error e⟩ := compileEquation_noModel hm
    rw [effect, he]
    exact Keeps.refl s
  | some m =>
    rw [effect_compileEquation hm]
    split
    · exact Keeps.of_model hm rfl (Model.Keeps.add (Model.add_constraint
        (m.contains_freshName name))) rfl
    · exact Keeps.refl s

theorem keeps_installObjective (spec : ObjectiveSpec) (params : Source) (asked : Option Value) :
    (installObjective spec params asked).Keeps := by
  intro s
  cases hm : s.model with
  | none =>
    rw [effect_installObjective_noModel hm]
    exact Keeps.refl s
  | some m =>
    obtain ⟨m', hsystem, rfl | ⟨o, rfl⟩⟩ := model_of_installObjective hm spec params asked
    · exact Keeps.of_model hm (by rw [hsystem]) (Model.Keeps.refl m') (by rw [hsystem])
    · exact Keeps.of_model hm (by rw [hsystem]) (Model.Keeps.putObjective m o) (by rw [hsystem])

theorem keeps_compileEquations (params : Source) (withObjective : Bool) :
    (compileEquations params withObjective).Keeps := by
  intro s
  cases hm : s.model with
  | none =>
    rw [effect_compileEquations_noModel hm]
    exact Keeps.refl s
  | some m =>
    have hpass : m.Keeps (s.pass params 0 m none s.equations).model :=
      fun name x hx => .inl (get?_pass hx)
    rw [effect_compileEquations hm]
    obtain ⟨m', hsystem, hm'⟩ :=
      s.system_of_finish params withObjective (s.pass params 0 m none s.equations)
    rw [hsystem]
    rcases hm' with rfl | ⟨o, rfl⟩
    · exact Keeps.of_model hm rfl hpass rfl
    · exact Keeps.of_model hm rfl (hpass.trans (Model.Keeps.putObjective _ o)) rfl

end EquationSystem

/-- An operation keeps the components of the model, whether it succeeds or fails. -/
theorem Operation.keeps_perform (op : Operation) (s : EquationSystem) :
    s.Keeps (op.perform s) := by
  cases op with
  | addVariable name lower upper start fixed =>
    exact keeps_addVariable name lower upper start fixed s
  | registerVariable name h => exact (sharesModel_registerVariable name h s).keeps
  | registerEquation tag block content =>
    exact (sharesModel_registerEquation tag block content s).keeps
  | replaceEquation position r => exact (sharesModel_replaceEquation position r s).keeps
  | compileEquation equation params indices env pairing name =>
    exact keeps_compileEquation equation params indices env pairing name s
  | compileEquations params withObjective => exact keeps_compileEquations params withObjective s
  | installObjective spec params asked => exact keeps_installObjective spec params asked s
  | solve request => exact (sharesModel_solve request s).keeps
  | warmStart state => exact (sharesModel_warmStart state s).keeps

/-- And so do any number of operations. -/
theorem keeps_run (s : EquationSystem) (ops : List Operation) : s.Keeps (run s ops) := by
  induction ops generalizing s with
  | nil => exact Keeps.refl s
  | cons op rest ih => exact (op.keeps_perform s).trans (ih (op.perform s))

/-! ### Created components -/

/-- The component is held by the model under its own name, or it has the name of the objective and
an objective stands there. -/
def EquationSystem.Stands (s : EquationSystem) (x : Component) : Prop :=
  ∃ name m, s.ownName x = some name ∧ s.model = some m ∧ (m.get? name = some x ∨
    name = Model.objectiveName ∧ ∃ o, m.get? Model.objectiveName = some (.objective o))

theorem EquationSystem.Keeps.stands {s t : EquationSystem} {x : Component} (h : s.Keeps t)
    (hx : s.Stands x) : t.Stands x := by
  obtain ⟨name, m, hname, hm, hheld⟩ := hx
  obtain ⟨m', hm', hkeeps⟩ := h.components m hm
  have hname' : t.ownName x = some name := by
    cases x with
    | ofVar id => exact h.names id name hname
    | constraint c => exact hname
    | objective o => exact hname
  refine ⟨name, m', hname', hm', ?_⟩
  rcases hheld with hheld | ⟨rfl, o, ho⟩
  · exact hkeeps name x hheld
  · rcases hkeeps _ _ ho with ho' | hlater
    · exact .inr ⟨rfl, o, ho'⟩
    · exact .inr hlater

namespace EquationSystem

variable {s : EquationSystem} {x : Component}

/-- A variable is created under its own name. -/
theorem stands_addVariable {name : String} {lower upper start fixed : Option Number}
    (hx : x ∈ Operation.created s (.addVariable name lower upper start fixed)) :
    (∀ o, x ≠ .objective o) ∧
      (Operation.perform s (.addVariable name lower upper start fixed)).Stands x := by
  rw [Operation.created] at hx
  rw [Operation.perform]
  cases hm : s.model with
  | none =>
    rw [effect_addVariable_noModel hm] at hx
    simp at hx
  | some m =>
    rw [effect_addVariable hm] at hx ⊢
    split
    · next htaken =>
      rw [if_pos htaken] at hx
      simp at hx
    · next hfree =>
      rw [if_neg hfree] at hx
      obtain rfl : x = .ofVar s.vars.length := by simpa using hx
      refine ⟨fun o h => by simp at h, name, _, ?_, rfl, .inl (Table.get?_insert_self _ _ _)⟩
      show Option.map _ (s.vars ++ [_])[s.vars.length]? = some name
      rw [List.getElem?_concat_length, Option.map_some, Variable.name_added]

/-- The constraint of an equation is created under its own name. -/
theorem stands_compileEquation {equation : Term} {params : Source} {indices : List String}
    {env : Bindings} {pairing : Option Term} {name : String}
    (hx : x ∈ Operation.created s (.compileEquation equation params indices env pairing name)) :
    (∀ o, x ≠ .objective o) ∧
      (Operation.perform s
        (.compileEquation equation params indices env pairing name)).Stands x := by
  rw [Operation.created] at hx
  cases hc : ((compileEquation equation params indices env pairing name).effect s).2 with
  | error e =>
    rw [hc] at hx
    simp at hx
  | ok c =>
    rw [hc] at hx
    obtain rfl : x = .constraint c := by simpa using hx
    obtain ⟨lhs, rhs, m, m', -, -, -, hsystem, hheld⟩ := compileEquation_eq_ok hc
    exact ⟨fun o h => by simp at h, c.name, m', rfl, congrArg EquationSystem.model hsystem,
      .inl hheld⟩

/-- The constraints of a pass are created under their own names, none of which is that of the
objective. -/
theorem stands_compileEquations {params : Source} {withObjective : Bool}
    (hx : x ∈ Operation.created s (.compileEquations params withObjective)) :
    (∀ o, x ≠ .objective o) ∧
      (Operation.perform s (.compileEquations params withObjective)).Stands x := by
  rw [Operation.created] at hx
  obtain ⟨c, hc, rfl⟩ := List.mem_map.mp hx
  rw [Operation.perform]
  refine ⟨fun o h => by simp at h, ?_⟩
  cases hm : s.model with
  | none =>
    rw [effect_compileEquations_noModel hm, newConstraints_self] at hc
    simp at hc
  | some m =>
    rw [effect_compileEquations hm] at hc ⊢
    obtain ⟨m', hsystem, hm'⟩ :=
      s.system_of_finish params withObjective (s.pass params 0 m none s.equations)
    rw [hsystem] at hc ⊢
    obtain ⟨hheld, hname⟩ := placed_of_pass hc
    refine ⟨c.name, m', rfl, rfl, .inl ?_⟩
    rcases hm' with rfl | ⟨o, rfl⟩
    · exact hheld
    · rw [Model.get?_putObjective, if_neg hname, hheld]

end EquationSystem

/-- What an operation creates stands in the system that it leaves. -/
theorem Operation.stands_of_created {op : Operation} {s : EquationSystem} {x : Component}
    (hx : x ∈ op.created s) : (∀ o, x ≠ .objective o) ∧ (op.perform s).Stands x := by
  cases op with
  | addVariable name lower upper start fixed => exact stands_addVariable hx
  | compileEquation equation params indices env pairing name => exact stands_compileEquation hx
  | compileEquations params withObjective => exact stands_compileEquations hx
  | _ => simp [created] at hx

/-- The components that are created in a history stand at its end. -/
theorem stands_of_createdIn (s : EquationSystem) (ops : List Operation) {x : Component}
    (hx : x ∈ createdIn s ops) : (∀ o, x ≠ .objective o) ∧ (run s ops).Stands x := by
  induction ops generalizing s with
  | nil => simp [createdIn] at hx
  | cons op rest ih =>
    rw [createdIn] at hx
    rcases List.mem_append.mp hx with hfirst | hlater
    · obtain ⟨hne, hstands⟩ := Operation.stands_of_created hfirst
      exact ⟨hne, (keeps_run (op.perform s) rest).stands hstands⟩
    · exact ih (op.perform s) hlater

/-- **Created components stay.** In every history of a system, each variable and each constraint
that is created is held by the model under its own name at the end, unless that is the name of the
objective and there is an objective. And installing an objective, also one that is refused, takes
away nothing but what has the name of the objective. -/
theorem created_components_stay (s : EquationSystem) (ops : List Operation) :
    (∀ x ∈ createdIn s ops, ∃ name m, (run s ops).ownName x = some name ∧
      (run s ops).model = some m ∧
      (m.get? name = some x ↔
        ¬ (name = Model.objectiveName ∧ ∃ o, m.get? Model.objectiveName = some (.objective o)))) ∧
    ∀ m, (run s ops).model = some m → ∀ spec params asked,
      ∃ m', (Operation.perform (run s ops) (.installObjective spec params asked)).model = some m' ∧
        ∀ name ≠ Model.objectiveName, m'.get? name = m.get? name := by
  constructor
  · intro x hx
    obtain ⟨hne, name, m, hname, hm, hheld⟩ := stands_of_createdIn s ops hx
    refine ⟨name, m, hname, hm, ?_, ?_⟩
    · rintro hget ⟨rfl, o, ho⟩
      exact hne o (Option.some.inj (hget.symm.trans ho))
    · exact fun hnot => hheld.resolve_right hnot
  · intro m hm spec params asked
    obtain ⟨m', hsystem, hm'⟩ := model_of_installObjective hm spec params asked
    refine ⟨m', congrArg EquationSystem.model hsystem, fun name hname => ?_⟩
    rcases hm' with rfl | ⟨o, rfl⟩
    · rfl
    · rw [Model.get?_putObjective, if_neg hname]

/-- The body of an objective, and nothing else. -/
def plainObjective (body : Term) : ObjectiveSpec := ⟨body, none, [], .absent, .minimize⟩

/-- A variable stays where an equation of its own is given the name of the objective and loses it.
-/
theorem created_components_stay_beside_objective :
    let s := new (some (.empty "model"))
    let ops : List Operation := [.addVariable "x" none none (some (.int 3)) none,
      .compileEquation (.eq (.var "x" none) (.const (.number (.int 1)))) .absent [] Table.empty none
        "cge_objective",
      .installObjective (plainObjective (.var "x" none)) .absent none]
    .ofVar 0 ∈ createdIn s ops ∧ (run s ops).ownName (.ofVar 0) = some "x" ∧
      ∃ m, (run s ops).model = some m ∧ m.components.keys = ["x", "cge_objective"] ∧
        m.get? "x" = some (.ofVar 0) := by
  intro s ops
  have hmem : .ofVar 0 ∈ createdIn s ops := List.mem_cons_self
  have hown : (run s ops).ownName (.ofVar 0) = some "x" := rfl
  obtain ⟨name, m, hname, hm, hheld⟩ := (created_components_stay s ops).1 _ hmem
  obtain rfl : "x" = name := Option.some.inj (hown.symm.trans hname)
  have hkeys : (run s ops).model.map (fun m => m.components.keys) =
      some ["x", "cge_objective"] := rfl
  rw [hm] at hkeys
  exact ⟨hmem, hown, m, hm, Option.some.inj hkeys, hheld.mpr fun h => absurd h.1 (by decide)⟩

/-- An objective takes the place of a variable that has its name: the variable was created, and the
model does not hold it any more. -/
theorem objective_takes_place_of_variable :
    let s := new (some (.empty "model"))
    let ops : List Operation := [.addVariable "cge_objective" none none none none,
      .installObjective (plainObjective (.const (.number (.int 1)))) .absent none]
    .ofVar 0 ∈ createdIn s ops ∧ (run s ops).ownName (.ofVar 0) = some "cge_objective" ∧
      ¬ ∃ name m, (run s ops).ownName (.ofVar 0) = some name ∧ (run s ops).model = some m ∧
        m.get? name = some (.ofVar 0) := by
  intro s ops
  have hown : (run s ops).ownName (.ofVar 0) = some "cge_objective" := rfl
  have hheld : (run s ops).model.bind (fun m => m.get? "cge_objective") =
      some (.objective (.goal .minimize (.number (.int 1)))) := rfl
  refine ⟨List.mem_cons_self, hown, ?_⟩
  rintro ⟨name, m, hname, hm, hget⟩
  obtain rfl : "cge_objective" = name := Option.some.inj (hown.symm.trans hname)
  rw [hm, Option.bind_some, hget] at hheld
  simp at hheld

end Equilibrium

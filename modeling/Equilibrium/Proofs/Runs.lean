/-
What a run gives.

A run builds its blocks, fixes variables, compiles the equations, lets a solver assign values and
measures what remains. If all of this succeeds, each stage has done its part for every block,
variable and equation instance, so the result can be read off the declarations:

* `Run.buildAll_eq_ok` - the variables and the records of all blocks, in order;
* `EquationSystem.compileEquations_eq_ok`, `EquationSystem.equations_of_solve` - what compiling and
  solving leave;
* `Run.valuesAfter` - the values of the variables at the end;
* `Run.exports_differences` - the exported residuals are the differences of the sides of the
  declared equation instances at these values.
-/
import Equilibrium.Proofs.Occurrences
import Equilibrium.Proofs.Sizes
import Equilibrium.Proofs.WrittenValues

namespace Equilibrium

open Equilibrium.Action

/-! ### The stages of a run -/

namespace Run

variable {s t : EquationSystem} {shared : Source} {vars : List Variable}

/-- Blocks that build leave their variables, no two of which have the same name, and their records.
-/
theorem buildAll_eq_ok {blocks : List BlockInstance} (hvars : (vars.map Variable.name).Nodup)
    (h : (buildAll shared (blocks.map .declared)).effect (s.withVariables vars) = (t, .ok ())) :
    let declared := blocks.map BlockInstance.block
    let found := vars ++ declared.flatMap Block.declaredVariables
    t = ({ s with equations := s.equations ++ declared.flatMap (·.records shared) } :
        EquationSystem).withVariables found ∧ (found.map Variable.name).Nodup := by
  induction blocks generalizing s vars with
  | nil =>
    obtain ⟨rfl, -⟩ : s.withVariables vars = t ∧ _ := Prod.mk.inj h
    simpa using hvars
  | cons b rest ih =>
    rw [List.map_cons, buildAll, effect_bind_eq_ok] at h
    obtain ⟨u, _, hbuild, hrest⟩ := h
    have hb : (b.block.build shared).effect (s.withVariables vars) = (u, .ok ()) := hbuild
    obtain ⟨rfl, hnodup⟩ := Block.build_eq_ok hvars hb
    -- the rest starts from a system of the same kind, with more variables and records
    obtain ⟨rfl, hall⟩ := ih hnodup hrest
    simp only [List.map_cons, List.flatMap_cons, ← List.append_assoc, true_and] at hall ⊢
    exact hall

end Run

namespace EquationSystem

variable {s t : EquationSystem} {m : Model} {params : Source} {withObjective : Bool}

/-- Compiling the equations makes a constraint of each record that is to be compiled, and no
variable is found in the model under a new name. -/
theorem compileEquations_eq_ok (hm : s.model = some m)
    (h : (compileEquations params withObjective).effect s = (t, .ok ())) :
    ∃ m' done, t = { s with model := some m', equations := done } ∧
      List.Forall₂ (s.Compiles params) s.equations done ∧
      ∀ name id, m'.get? name = some (.ofVar id) → (name, .ofVar id) ∈ m.components.entries := by
  obtain ⟨m₀, objective, hm₀, hobjective, hfinish⟩ := finish_of_compileEquations h
  obtain rfl : m = m₀ := Option.some.inj (hm.symm.trans hm₀)
  obtain ⟨m', hsystem, hmodel⟩ :=
    s.system_of_finish params withObjective (s.pass params 0 m none s.equations)
  rw [hfinish] at hsystem
  obtain ⟨hcompiles, hentries⟩ := compiles_of_pass (Pass.ext rfl rfl hobjective :
    s.pass params 0 m none s.equations = ⟨_, _, .ok objective⟩)
  refine ⟨m', _, hsystem, hcompiles, fun name id hid => ?_⟩
  -- the objective may have taken a variable's name, but it is no variable
  have hget : (s.pass params 0 m none s.equations).model.get? name = some (.ofVar id) := by
    rcases hmodel with rfl | ⟨o, rfl⟩
    · exact hid
    · rw [Model.get?_putObjective] at hid
      split at hid
      · cases hid
      · exact hid
  -- what the pass has added are constraints
  have hmem := Table.mem_of_get? hget
  rw [hentries, List.mem_append] at hmem
  rcases hmem with hmem | hmem
  · exact hmem
  · obtain ⟨c, -, hc⟩ := List.mem_map.mp hmem
    cases hc

variable {writes : List (String × Option Number)} {fails : Bool}

/-- A solve with a solver that assigns values: the values are written, and then the residuals are
measured. -/
theorem solve_assigning_eq_ok
    (h : (solve (some (.object (.assigning writes fails)))).effect s = (t, .ok ())) :
    ∃ m u n, s.model = some m ∧
      (writeComponents m writes).effect
        { s with solver := some (.assigning writes fails), solveOptions := Table.empty } =
        (u, .ok ()) ∧
      updateResiduals.effect { u with results := some solved } = (t, .ok n) := by
  rw [solve, effect_bind_of_ok effect_current, effect_bind_eq_ok] at h
  obtain ⟨_, m, hrequire, h⟩ := h
  obtain ⟨hsame, hm⟩ := effect_lift_eq_ok.mp hrequire
  rw [hsame, effect_bind_of_ok (t := { s with
      solver := some (.assigning writes fails), solveOptions := Table.empty }) (a := ()) rfl,
    effect_bind_of_ok effect_current] at h
  obtain ⟨v, results, hrun, h⟩ := effect_bind_eq_ok.mp h
  cases fails with
  | true => cases hrun
  | false =>
    obtain ⟨u, _, hwrites, hresults⟩ := effect_bind_eq_ok.mp
      ((effect_bind_of_ok effect_current).symm.trans hrun)
    cases hresults
    rw [effect_bind_of_ok (t := { u with results := some solved }) (a := ()) rfl,
      effect_bind_eq_ok] at h
    obtain ⟨_, n, hupdate, hpure⟩ := h
    cases hpure
    exact ⟨m, u, n, requireModel_eq_ok.mp hm, hwrites, hupdate⟩

/-- A solve measures the residuals at the values that the solver leaves. -/
theorem equations_of_solve (hcompiled : ∀ r ∈ s.equations, r.CarriesCompiled)
    (hnames : (s.vars.map Variable.name).Nodup)
    (hmodel : ∀ m, s.model = some m → ∀ name id, m.get? name = some (.ofVar id) →
      (s.vars.map Variable.name)[id]? = some name)
    (h : (solve (some (.object (.assigning writes fails)))).effect s = (t, .ok ())) :
    let values : Assignment := fun id =>
      (s.vars[id]?).bind fun v => valueAfter v.name v.value writes
    t.equations = s.equations.map (Record.measured values) ∧
      ∀ r ∈ s.equations, r.isReadable values = true := by
  intro values
  obtain ⟨m, u, n, hm, hwrites, hupdate⟩ := solve_assigning_eq_ok h
  have hwritten := written_of_writeComponents (s := { s with
    solver := some (.assigning writes fails), solveOptions := Table.empty }) hnames
    (hmodel m hm) hwrites
  have hvalues : EquationSystem.assignment { u with results := some solved } = values :=
    funext hwritten.assignment
  have hequations : u.equations = s.equations := by
    rw [hwritten.frame]
  rw [← hequations] at hcompiled ⊢
  -- the solve has succeeded, so the refresh has, and every record was readable
  have hresult : (updateResiduals { u with results := some solved }).result = .ok n :=
    congrArg Prod.snd hupdate
  have hreadable := isReadable_of_updateResiduals (s := { u with results := some solved })
    hcompiled hresult
  have hsystem := (updateResiduals_of_readable (s := { u with results := some solved })
    hcompiled hreadable).1
  rw [hvalues] at hreadable hsystem
  refine ⟨?_, hreadable⟩
  have ht : (updateResiduals { u with results := some solved }).system = t :=
    congrArg Prod.fst hupdate
  rw [← ht, hsystem]

end EquationSystem

/-- If all slacks are numbers, the greatest size of a summary is that of a solution, and the worst
entry belongs to the first solution of that size. Without solutions the greatest size is zero. -/
theorem EquationSystem.maxAbs_of_numbers {s : EquationSystem} {tol : Float}
    {solutions : List Dataset.Solution}
    (hsolutions : solutions = s.residuals.map (Dataset.solutionOf tol))
    (hnumbers : ∀ x ∈ solutions, x.slack.isNaN = false) :
    (solutions = [] ∧ (s.summarizeResiduals tol).maxAbs = 0.0) ∨
      ∃ before x after, solutions = before ++ x :: after ∧
        (s.summarizeResiduals tol).maxAbs = x.slack ∧
        (s.summarizeResiduals tol).worst.map (Dataset.solutionOf tol) = some x ∧
        (∀ y ∈ before, y.slack < x.slack) ∧ ∀ y ∈ after, y.slack ≤ x.slack := by
  have hentries : ∀ e ∈ s.residuals, e.isNaN = false := by
    intro e he
    have hslack := hnumbers (Dataset.solutionOf tol e) (hsolutions ▸ List.mem_map_of_mem he)
    rwa [ResidualEntry.isNaN, ← Binary.isNaN_abs]
  rw [summarizeResiduals]
  subst hsolutions
  cases hworst : worstOf s.residuals with
  | none =>
    -- only an empty list has no worst entry
    refine .inl ⟨?_, rfl⟩
    cases hresiduals : s.residuals with
    | nil => rfl
    | cons e rest =>
      rw [hresiduals] at hworst
      cases hworst
  | some w =>
    obtain ⟨before, after, hsplit, hbefore, hafter⟩ := worstOf_eq_some hentries hworst
    refine .inr ⟨before.map (Dataset.solutionOf tol), Dataset.solutionOf tol w,
      after.map (Dataset.solutionOf tol), ?_, rfl, rfl, ?_, ?_⟩
    · rw [hsplit, List.map_append, List.map_cons]
    · intro y hy
      obtain ⟨e, he, rfl⟩ := List.mem_map.mp hy
      exact hbefore e he
    · intro y hy
      obtain ⟨e, he, rfl⟩ := List.mem_map.mp hy
      exact hafter e he

theorem VariableSpec.value_variable (v : VariableSpec) (indices : List String) :
    (v.variable indices).value = (v.fixed <|> v.start).map .real := by
  rw [VariableSpec.variable, Variable.added]
  cases v.fixed <;> rfl

/-! ### The whole run -/

namespace Run

variable {s t : EquationSystem} {spec : RunSpec} {options : RunOptions} {result : RunResult}

/-- The registry of the variables of some blocks, each under its qualified name. -/
def registryOf (blocks : List Block) : Table Handle :=
  Table.ofVariables .ofVar (blocks.flatMap Block.declaredVariables)

/-- The values of the variables of some blocks after some writes. A variable starts with the value
that it is fixed to, or else with its start value. -/
def valuesAfter (blocks : List Block) (writes : List (String × Option Number)) : Assignment :=
  fun id => ((blocks.flatMap Block.declared)[id]?).bind fun (v, indices) =>
    valueAfter (qualifiedName v.name indices) ((v.fixed <|> v.start).map .real) writes

theorem valuesAfter_eq (blocks : List Block) (writes : List (String × Option Number))
    (id : VarId) :
    valuesAfter blocks writes id = ((blocks.flatMap Block.declaredVariables)[id]?).bind fun v =>
      valueAfter v.name v.value writes := by
  have hvariables : blocks.flatMap Block.declaredVariables =
      (blocks.flatMap Block.declared).map fun d => d.1.variable d.2 := by
    rw [List.map_flatMap]
    rfl
  rw [valuesAfter, hvariables, List.getElem?_map, Option.bind_map]
  refine Option.bind_congr fun d _ => ?_
  rw [Function.comp_apply, VariableSpec.name_variable, VariableSpec.value_variable]

/-- A run that succeeds summarizes and exports the residuals of the system that the solve leaves. -/
theorem conclude_eq_ok (h : (conclude options).effect s = (t, .ok result)) :
    result.summary = s.summarizeResiduals options.tol ∧ ∃ id description,
      result.dataset = Dataset.ofEntries id description options.tol s.residuals := by
  rw [conclude, effect_bind_of_ok effect_current, effect_bind_eq_ok] at h
  obtain ⟨u, dataset, hdataset, h⟩ := h
  obtain ⟨description, -, hid⟩ := bind_eq_ok.mp (effect_lift_eq_ok.mp hdataset).2
  obtain ⟨id, -, hentries⟩ := bind_eq_ok.mp hid
  cases h
  exact ⟨rfl, id, description, (Except.ok.inj hentries).symm⟩

/-- `s` holds what some blocks declare, after some of the variables were fixed. -/
structure Prepared (blocks : List Block) (shared : Source) (fixes : List (String × Option Number))
    (s : EquationSystem) : Prop where
  registry : s.registry = registryOf blocks
  model : ∃ name, s.model =
    some ⟨name, Table.ofVariables .ofVar (blocks.flatMap Block.declaredVariables)⟩
  equations : s.equations = (occurrences blocks).map (Occurrence.record shared)
  names : s.vars.map Variable.name = (blocks.flatMap Block.declaredVariables).map Variable.name
  nodup : (s.vars.map Variable.name).Nodup
  /-- The values that the variables have after more writes. -/
  values : ∀ more id, ((s.vars[id]?).bind fun v => valueAfter v.name v.value more) =
    valuesAfter blocks (fixes ++ more) id

/-- Building blocks and fixing variables. -/
theorem prepared_of_fixVariables {blocks : List BlockInstance} {name : String}
    {fixes : List (String × Option Number)} {shared : Source}
    (hbuild : (buildAll shared (blocks.map .declared)).effect
      (EquationSystem.new (some (.empty name))) = (s, .ok ()))
    (hfix : (EquationSystem.fixVariables fixes).effect s = (t, .ok ())) :
    Prepared (blocks.map BlockInstance.block) shared fixes t := by
  have hnew : EquationSystem.new (some (.empty name)) =
      (EquationSystem.new (some (.empty name))).withVariables [] :=
    EquationSystem.new_eq_withVariables (some name)
  have hnil : (([] : List Variable).map Variable.name).Nodup := List.nodup_nil
  rw [hnew] at hbuild
  obtain ⟨rfl, hnodup⟩ := buildAll_eq_ok hnil hbuild
  rw [List.nil_append] at hnodup
  have hwritten := EquationSystem.written_of_fixVariables hnodup (fun name id hid => by
    obtain ⟨_ | _, hget, hvar⟩ := Option.bind_eq_some_iff.mp hid
    · cases hvar
      exact Table.getElem?_names_of_mem (fun _ _ => Handle.ofVar.inj) (Table.mem_of_get? hget)
    · cases hvar) hfix
  have hsame := hwritten.names
  refine ⟨?_, ⟨name, ?_⟩, ?_, hsame, ?_, fun more id => ?_⟩
  · rw [hwritten.frame]
    rfl
  · rw [hwritten.frame]
    rfl
  · rw [hwritten.frame, ← Occurrence.records_eq]
    rfl
  · rw [hsame]
    exact hnodup
  · rw [hwritten.bind_valueAfter, valuesAfter_eq]
    rfl

/-- The residuals at the end of a run, instance by instance. -/
theorem residuals_of_steps {blocks : List BlockInstance}
    {writes : List (String × Option Number)} {fails : Bool}
    (hblocks : spec.blocks = blocks.map .declared) (hcompile : options.compile = true)
    (hsolver : options.solver = some (.object (.assigning writes fails)))
    (h : (steps spec options).effect (initial spec) = (t, .ok result)) :
    let declared := blocks.map BlockInstance.block
    let values := valuesAfter declared (options.fixes ++ writes)
    (∃ s : EquationSystem, result.summary = s.summarizeResiduals options.tol ∧
      (∃ id description,
        result.dataset = Dataset.ofEntries id description options.tol s.residuals) ∧
      s.residuals = (occurrences declared).filterMap fun o =>
        (o.residual? (registryOf declared) options.params spec.params values).map o.entry) ∧
    ∀ o ∈ occurrences declared, ∀ lhs rhs, o.spec.equation = some (.eq lhs rhs) →
      ∃ e, o.difference? (registryOf declared) options.params spec.params = some e ∧
        ∀ n, e.eval values = some n → ∃ x, n.toReal = .ok x := by
  intro declared values
  rw [steps, hblocks, compileIfWanted, if_pos hcompile, hsolver, effect_bind_eq_ok] at h
  obtain ⟨s₁, _, hbuild, h⟩ := h
  obtain ⟨s₂, _, hfix, h⟩ := effect_bind_eq_ok.mp h
  obtain ⟨s₃, _, hequations, h⟩ := effect_bind_eq_ok.mp h
  obtain ⟨s₄, _, hsolve, hconclude⟩ := effect_bind_eq_ok.mp h
  -- `s₂` holds the declarations, `s₃` the constraints, and `s₄` the residuals
  have hprepared := prepared_of_fixVariables hbuild hfix
  obtain ⟨name, hm⟩ := hprepared.model
  obtain ⟨m, done, rfl, hcompiles, hmodel⟩ :=
    EquationSystem.compileEquations_eq_ok hm hequations
  rw [hprepared.equations] at hcompiles
  have hcompiled := EquationSystem.carriesCompiled_of_forall₂ hcompiles
  have hcomponents : ∀ m', some m = some m' → ∀ name id, m'.get? name = some (.ofVar id) →
      (s₂.vars.map Variable.name)[id]? = some name := by
    rintro _ ⟨⟩ name id hid
    rw [hprepared.names]
    exact Table.getElem?_names_of_mem (fun _ _ => Component.ofVar.inj) (hmodel name id hid)
  obtain ⟨hdone, hreadable⟩ := EquationSystem.equations_of_solve
    (s := { s₂ with model := some m, equations := done }) hcompiled hprepared.nodup hcomponents
    hsolve
  have hvalues : values = fun id => (s₂.vars[id]?).bind fun v =>
      valueAfter v.name v.value writes :=
    funext fun id => (hprepared.values writes id).symm
  obtain ⟨hsummary, hdataset⟩ := conclude_eq_ok hconclude
  refine ⟨⟨s₄, hsummary, hdataset, ?_⟩, ?_⟩
  · rw [EquationSystem.residuals, hdone, EquationSystem.residuals_of_measured hcompiles,
      hprepared.registry, hvalues]
  · intro o ho lhs rhs heq
    obtain ⟨r, hr, hrecord⟩ := exists_of_forall₂ hcompiles (List.mem_map_of_mem ho)
    rw [← hprepared.registry, hvalues]
    exact EquationSystem.difference?_of_readable hrecord (hreadable r hr) heq

/-- **A run exports the differences of the declared equation instances.** Take a run on declared
blocks that compiles, lets a solver assign values, and succeeds. Then both sides of every declared
equation instance compile, and the value of their difference, where it has one, is a double. The
exported constraints and solutions are those of the instances with such a value, in the order of
their declaration, and a slack is the absolute value: of the difference of the two sides compiled
for that instance alone, at the values that the variables have after they were fixed and written,
with parameters from the run's own source, that of the equation or that of the blocks. The summary
counts these solutions and those of them above the tolerance, and unless a slack is not a number,
its greatest size is the greatest slack. -/
theorem exports_differences (spec : RunSpec) (options : RunOptions) (blocks : List BlockInstance)
    (writes : List (String × Option Number)) (fails : Bool) (result : RunResult)
    (hblocks : spec.blocks = blocks.map .declared) (hcompile : options.compile = true)
    (hsolver : options.solver = some (.object (.assigning writes fails)))
    (hrun : (run spec options).result = .ok result) :
    let declared := blocks.map BlockInstance.block
    let registry := registryOf declared
    let values := valuesAfter declared (options.fixes ++ writes)
    let residual? := Occurrence.residual? registry options.params spec.params values
    let solutions := result.dataset.solutions
    (∀ o ∈ occurrences declared, ∀ lhs rhs, o.spec.equation = some (.eq lhs rhs) →
      ∃ e, o.difference? registry options.params spec.params = some e ∧
        ∀ n, e.eval values = some n → ∃ x, n.toReal = .ok x) ∧
    solutions = ((occurrences declared).filterMap fun o => (residual? o).map fun x =>
      ⟨o.id, 0.0, x.abs, x.abs <= options.tol⟩) ∧
    result.dataset.constraints = ((occurrences declared).filterMap fun o =>
      (residual? o).map fun _ => ⟨o.id, "other", "eq", [o.block]⟩) ∧
    result.summary.count = solutions.length ∧
    result.summary.aboveTol = solutions.countP (fun x => options.tol < x.slack) ∧
    ((∀ x ∈ solutions, x.slack.isNaN = false) →
      (solutions = [] ∧ result.summary.maxAbs = 0.0) ∨
      ∃ before x after, solutions = before ++ x :: after ∧ result.summary.maxAbs = x.slack ∧
        result.summary.worst.map (Dataset.solutionOf options.tol) = some x ∧
        (∀ y ∈ before, y.slack < x.slack) ∧ ∀ y ∈ after, y.slack ≤ x.slack) := by
  intro declared registry values residual? solutions
  have hsteps : (steps spec options).effect (initial spec) =
      ((run spec options).system, .ok result) := Prod.ext rfl hrun
  obtain ⟨⟨s, hsummary, ⟨id, description, hdataset⟩, hresiduals⟩, hsides⟩ :=
    residuals_of_steps hblocks hcompile hsolver hsteps
  have hsolutions : solutions = s.residuals.map (Dataset.solutionOf options.tol) :=
    congrArg Dataset.solutions hdataset
  have hconstraints : result.dataset.constraints = s.residuals.map Dataset.constraintOf :=
    congrArg Dataset.constraints hdataset
  refine ⟨hsides, ?_, ?_, ?_, ?_, ?_⟩
  · rw [hsolutions, hresiduals, List.map_filterMap]
    simp only [Option.map_map]
    rfl
  · rw [hconstraints, hresiduals, List.map_filterMap]
    simp only [Option.map_map]
    rfl
  · rw [hsummary, hsolutions, List.length_map]
    rfl
  · rw [hsummary, hsolutions, List.countP_map]
    rfl
  · rw [hsummary]
    exact EquationSystem.maxAbs_of_numbers hsolutions

/-- Of the variable `x` at `a` and at `b`. -/
def markets : BlockInstance :=
  ⟨"DeclarativeBlock", "goods", "", [⟨"x", [["a"], ["b"]], none, none, some 1.0, none⟩],
    [⟨"balance", some (.eq (.var "x" none) (.param "demand" (some [.free "i"]))), none, none,
      some ["i"], [["a"], ["b"]], none, .absent⟩]⟩

def marketsRun : RunSpec :=
  ⟨"markets", [.declared markets], .tables [(.text "demand",
    .map [(.text "a", .number (.int 2)), (.text "b", .number (.int 2))])], Table.empty⟩

def marketsOptions : RunOptions :=
  { solver := some (.object (.assigning [("x_b", some (.int 5))] false))
    fixes := [("x_a", some (.int 2)), ("x_b", some (.int 3))] }

theorem exports_differences_of_two_markets :
    marketsRun.blocks = [markets].map .declared ∧
    ∃ result, (run marketsRun marketsOptions).result = .ok result ∧
      result.dataset.solutions.map Dataset.Solution.constraint =
        ["goods:balance:a", "goods:balance:b"] ∧
      result.dataset.solutions.map Dataset.Solution.slack = [0.0, 3.0] ∧
      result.summary.count = 2 := by
  have hok : (run marketsRun marketsOptions).result.isOk = true := by decide +kernel
  cases hrun : (run marketsRun marketsOptions).result with
  | error e =>
    rw [hrun] at hok
    cases hok
  | ok result =>
    obtain ⟨-, hsolutions, -, hcount, -⟩ := exports_differences marketsRun marketsOptions [markets]
      [("x_b", some (.int 5))] false result rfl rfl rfl hrun
    refine ⟨rfl, result, rfl, ?_, ?_, ?_⟩
    · rw [hsolutions]
      decide +kernel
    · rw [hsolutions]
      rfl
    · rw [hcount, hsolutions]
      decide +kernel

end Run

end Equilibrium

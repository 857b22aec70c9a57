/-
Installing solvers and solving with them.

A solver is installed on its own or together with a solve, and what it is told when it solves is
installed with it. A call that is refused leaves the system as it was; a solver that fails leaves
the values that it assigned, and nothing else. So, whatever was called before and however it ended:

* `SolverRequest.Selects`, `SolverRequest.refusal?` - what a request selects, or why it is refused;
* `EquationSystem.effect_setSolver_of_selects`, `EquationSystem.effect_solve_of_selects` - what the
  two kinds of calls do;
* `SolverCall.effect_of_refusal` - a refused call changes nothing;
* `SolverCall.exists_solving` - a solve that is not refused runs the solver that it is for;
* `SolverCall.solver_of_effect` - one call installs what it selects, or changes no installed solver;
* `EquationSystem.HasSolverFrom`, `EquationSystem.solver_afterCalls` - after any calls the solver
  and what it is told come from the last accepted one;
* `EquationSystem.solver_calls_fail_cleanly` - and refusals and failures change nothing else.
-/
import Equilibrium.Proofs.Effects
import Equilibrium.EquationSystem.Solving
import Mathlib.Data.List.Induction

namespace Equilibrium

open Equilibrium.Action

/-! ### Requests -/

/-- Why a library does not make a solver of this name from these options, if it does not. -/
def SolverLibrary.refusal? (library : SolverLibrary) (name : String) (options : Table Value) :
    Option Fault :=
  match library name with
  | none => some (.unavailableSolver name)
  | some make => match make options with
    | .ok _ => none
    | .error e => some e

variable {library : SolverLibrary} {e : Fault}

theorem SolverLibrary.exists_made {name : String} {options : Table Value}
    (h : library.refusal? name options = none) :
    ∃ make solver, library name = some make ∧ make options = .ok solver := by
  cases hfound : library name with
  | none => simp [refusal?, hfound] at h
  | some make =>
    cases hmade : make options with
    | ok solver => exact ⟨make, solver, rfl, hmade⟩
    | error e => simp [refusal?, hfound, hmade] at h

theorem SolverConfig.create_of_made {c : SolverConfig} {solver : Solver}
    {make : Table Value → Except Fault Solver} (hfound : library c.solver = some make)
    (hmade : make c.options = .ok solver) : c.create library = .ok solver := by
  rw [create, hfound]
  exact hmade

theorem SolverConfig.create_of_refusal {c : SolverConfig}
    (h : library.refusal? c.solver c.options = some e) : c.create library = .error e := by
  cases hfound : library c.solver with
  | none =>
    obtain rfl : .unavailableSolver c.solver = e := by
      simpa [SolverLibrary.refusal?, hfound] using h
    rw [create, hfound]
  | some make =>
    cases hmade : make c.options with
    | ok solver => simp [SolverLibrary.refusal?, hfound, hmade] at h
    | error e' =>
      obtain rfl : e' = e := by simpa [SolverLibrary.refusal?, hfound, hmade] using h
      rw [create, hfound]
      exact hmade

namespace SolverRequest

variable {r : SolverRequest} {solver : Solver} {options : Table Value}

/-- What a request selects, and what the solver is told. A solver object is told nothing, and a
solver from the library is told whether to show its output; a mere name does not ask for that. -/
inductive Selects (library : SolverLibrary) : SolverRequest → Solver → Table Value → Prop
  | object (solver : Solver) : Selects library (.object solver) solver Table.empty
  | configured {c : SolverConfig} {make : Table Value → Except Fault Solver} {solver : Solver}
      (hfound : library c.solver = some make) (hmade : make c.options = .ok solver) :
      Selects library (.configured c) solver (Table.empty.insert "tee" (.bool c.tee))
  | named {name : String} {make : Table Value → Except Fault Solver} {solver : Solver}
      (hne : name ≠ "") (hfound : library name = some make)
      (hmade : make Table.empty = .ok solver) :
      Selects library (.named name) solver (Table.empty.insert "tee" (.bool false))

/-- Why a request is refused, if it is. -/
def refusal? (library : SolverLibrary) : SolverRequest → Option Fault
  | named name =>
      if name = "" then some (.invalid [⟨[.field "solver"], .tooShort⟩])
      else library.refusal? name Table.empty
  | configured c => library.refusal? c.solver c.options
  | object _ => none
  | foreign v => some (.unsupportedOptimizer v.quoted)

/-- A name stands for the configuration with this name, and must not be empty. -/
theorem toExcept_ofForm_named (name : String) :
    (SolverConfig.ofForm (Table.empty.insert "solver" (.text name))).toExcept =
      if name = "" then .error (.invalid [⟨[.field "solver"], .tooShort⟩])
      else .ok ⟨name, Table.empty, false⟩ := by
  have hfield : Form.field (Table.empty.insert "solver" (.text name)) "solver" Form.someText
        "ipopt" = Checked.within (.field "solver")
        (if name.isEmpty then Checked.flaw .tooShort else Checked.ok name) := rfl
  rw [SolverConfig.ofForm, hfield]
  by_cases hempty : name = ""
  · rw [if_pos hempty, hempty]
    rfl
  · rw [if_neg hempty, if_neg (by simpa using hempty)]
    rfl

/-- A request resolves to what it selects. -/
theorem resolve_of_selects (h : r.Selects library solver options) :
    r.resolve library = .ok (solver, options) := by
  cases h with
  | object => rfl
  | configured hfound hmade =>
    rw [resolve, SolverConfig.create_of_made hfound hmade]
    rfl
  | @named name make _ hne hfound hmade =>
    rw [resolve, toExcept_ofForm_named, if_neg hne]
    show (SolverConfig.create ⟨name, Table.empty, false⟩ library >>= _) = _
    rw [SolverConfig.create_of_made hfound hmade]
    rfl

/-- A request that is refused does not resolve, for the same reason. -/
theorem resolve_of_refusal (h : r.refusal? library = some e) : r.resolve library = .error e := by
  cases r with
  | object solver => cases h
  | foreign v =>
    cases h
    rfl
  | configured c =>
    rw [resolve, SolverConfig.create_of_refusal h]
    rfl
  | named name =>
    rw [refusal?] at h
    rw [resolve, toExcept_ofForm_named]
    split at h
    · next hempty =>
      cases h
      rw [if_pos hempty]
      rfl
    · next hne =>
      rw [if_neg hne]
      show (SolverConfig.create ⟨name, Table.empty, false⟩ library >>= _) = _
      rw [SolverConfig.create_of_refusal h]
      rfl

/-- A request that is not refused selects a solver. -/
theorem exists_selects (h : r.refusal? library = none) :
    ∃ solver options, r.Selects library solver options := by
  cases r with
  | object solver => exact ⟨_, _, .object solver⟩
  | foreign v => cases h
  | configured c =>
    obtain ⟨make, solver, hfound, hmade⟩ := SolverLibrary.exists_made h
    exact ⟨_, _, .configured hfound hmade⟩
  | named name =>
    rw [refusal?] at h
    split at h
    · cases h
    · next hne =>
      obtain ⟨make, solver, hfound, hmade⟩ := SolverLibrary.exists_made h
      exact ⟨_, _, .named hne hfound hmade⟩

theorem not_selects_of_refusal (h : r.refusal? library = some e) :
    ¬ r.Selects library solver options := by
  intro hselects
  have hresolve := resolve_of_selects hselects
  rw [resolve_of_refusal h] at hresolve
  cases hresolve

end SolverRequest

/-! ### Solving -/

namespace EquationSystem

variable {s t : EquationSystem} {m : Model} {r : SolverRequest} {solver : Solver}
  {options : Table Value}

/-- The system with another solver, together with what it is told. -/
def withSolver (s : EquationSystem) (solver : Solver) (options : Table Value) : EquationSystem :=
  { s with solver := some solver, solveOptions := options }

theorem effect_setSolver_of_selects (h : r.Selects library solver options) :
    (setSolver r library).effect s = (s.withSolver solver options, .ok ()) := by
  rw [effect, setSolver, r.resolve_of_selects h]
  rfl

theorem effect_setSolver_of_refusal (h : r.refusal? library = some e) :
    (setSolver r library).effect s = (s, .error e) := by
  rw [effect, setSolver, r.resolve_of_refusal h]

/-- Writing to components changes variables only, also when it fails. -/
theorem writeComponents_frame (m : Model) (writes : List (String × Option Number))
    (s : EquationSystem) :
    ∃ vars, ((writeComponents m writes).effect s).1 = { s with vars := vars } := by
  induction writes generalizing s with
  | nil => exact ⟨s.vars, rfl⟩
  | cons w rest ih =>
    obtain ⟨name, value⟩ := w
    rw [effect, writeComponents, writeComponent]
    cases m.get? name with
    | none => exact ⟨s.vars, rfl⟩
    | some c =>
      cases c with
      | ofVar id =>
        obtain ⟨vars, hvars⟩ := ih (s.assign id value)
        exact ⟨vars, hvars⟩
      | _ => exact ⟨s.vars, rfl⟩

/-- A solver changes variables only, also when it fails. -/
theorem runSolver_frame (m : Model) (solver : Solver) (s : EquationSystem) :
    ∃ vars, ((runSolver m solver).effect s).1 = { s with vars := vars } := by
  let writes := (solver.solving.attempt m s.assignment s.solveOptions).1
  obtain ⟨vars, hvars⟩ := writeComponents_frame m writes s
  refine ⟨vars, ?_⟩
  rw [runSolver, effect_bind_of_ok effect_current, effect_bind, ← hvars]
  rcases (writeComponents m writes).effect s with ⟨t, e | _⟩
  · rfl
  · rfl

/-- Keeps what a solver returned and measures the residuals. -/
def recordResults (results : Value) : Action Unit := do
  keepResults results
  let _ ← updateResiduals
  return ()

/-- Runs a solver that is chosen and records its results. -/
def solveWith (m : Model) (solver : Solver) : Action Unit := do
  let results ← runSolver m solver
  recordResults results

/-- Solves with the installed solver. -/
def solveInstalled (m : Model) : Action Unit := do
  let s ← current
  match s.solver with
  | none => fail .noOptimizer
  | some solver => solveWith m solver

theorem effect_solveInstalled (hs : s.solver = some solver) :
    (solveInstalled m).effect s = (solveWith m solver).effect s := by
  rw [solveInstalled, effect_bind_of_ok effect_current, hs]

theorem effect_solve_noModel (hm : s.model = none) (request : Option SolverRequest) :
    (solve request library).effect s = (s, .error .noModel) := by
  have hrequire : (lift s.requireModel).effect s = (s, .error .noModel) := by
    rw [effect_lift, requireModel, hm]
  rw [solve, effect_bind_of_ok effect_current]
  exact effect_bind_of_error hrequire

/-- On a model, a solve installs the solver that is asked for and solves with what is installed
then. -/
theorem effect_solve_some (hm : s.model = some m) (r : SolverRequest) :
    (solve (some r) library).effect s =
      (setSolver r library >>= fun _ => solveInstalled m).effect s := by
  have hrequire : (lift s.requireModel).effect s = (s, .ok m) :=
    effect_lift_eq_ok.mpr ⟨rfl, requireModel_eq_ok.mpr hm⟩
  rw [solve, effect_bind_of_ok effect_current, effect_bind_of_ok hrequire]
  rfl

theorem effect_solve_none (hm : s.model = some m) :
    (solve none library).effect s = (solveInstalled m).effect s := by
  have hrequire : (lift s.requireModel).effect s = (s, .ok m) :=
    effect_lift_eq_ok.mpr ⟨rfl, requireModel_eq_ok.mpr hm⟩
  rw [solve, effect_bind_of_ok effect_current, effect_bind_of_ok hrequire]
  rfl

theorem effect_solve_of_selects (hm : s.model = some m) (h : r.Selects library solver options) :
    (solve (some r) library).effect s =
      (solveWith m solver).effect (s.withSolver solver options) := by
  rw [effect_solve_some hm, effect_bind_of_ok (effect_setSolver_of_selects h)]
  exact effect_solveInstalled rfl

theorem effect_solve_of_refusal (hm : s.model = some m) (h : r.refusal? library = some e) :
    (solve (some r) library).effect s = (s, .error e) := by
  rw [effect_solve_some hm]
  exact effect_bind_of_error (effect_setSolver_of_refusal h)

/-- Without a request the installed solver is run. -/
theorem effect_solve_installed (hm : s.model = some m) (hs : s.solver = some solver) :
    (solve none library).effect s = (solveWith m solver).effect s := by
  rw [effect_solve_none hm, effect_solveInstalled hs]

theorem effect_solve_noOptimizer (hm : s.model = some m) (hs : s.solver = none) :
    (solve none library).effect s = (s, .error .noOptimizer) := by
  rw [effect_solve_none hm, solveInstalled, effect_bind_of_ok effect_current, hs]
  rfl

theorem effect_solveWith_of_error (h : (runSolver m solver).effect s = (t, .error e)) :
    (solveWith m solver).effect s = (t, .error e) := effect_bind_of_error h

/-- Recording results changes results and records only, also when it fails. -/
theorem recordResults_frame (results : Value) (s : EquationSystem) :
    ∃ equations, ((recordResults results).effect s).1 =
      { s with equations := equations, results := some results } := by
  have hmeasured : updateResiduals.effect { s with results := some results } =
      ({ s with equations := (refresh s.assignment s.equations).1, results := some results },
        (refresh s.assignment s.equations).2.2) := rfl
  rw [recordResults, effect_bind_of_ok (t := { s with results := some results }) (a := ()) rfl,
    effect_bind, hmeasured]
  cases (refresh s.assignment s.equations).2.2 with
  | error e => exact ⟨_, rfl⟩
  | ok n => exact ⟨_, rfl⟩

/-- A solve with a solver that is chosen changes variables, records and results only. -/
theorem solveWith_frame (m : Model) (solver : Solver) (s : EquationSystem) :
    ∃ vars equations results, ((solveWith m solver).effect s).1 =
      { s with vars := vars, equations := equations, results := results } := by
  obtain ⟨vars, hframe⟩ := runSolver_frame m solver s
  rw [solveWith, effect_bind]
  rcases hrun : (runSolver m solver).effect s with ⟨t, e | results⟩
  all_goals
    rw [hrun] at hframe
    obtain rfl : t = { s with vars := vars } := hframe
  · exact ⟨vars, s.equations, s.results, rfl⟩
  · obtain ⟨equations, hequations⟩ := recordResults_frame results { s with vars := vars }
    exact ⟨vars, equations, some results, hequations⟩

end EquationSystem

/-! ### Calls -/

open EquationSystem

/-- A call that concerns the solver of a system, with the library that is at hand then. -/
inductive SolverCall
  | install (request : SolverRequest) (library : SolverLibrary)
  | solve (request : Option SolverRequest) (library : SolverLibrary)

namespace SolverCall

variable {s t : EquationSystem} {call : SolverCall} {solver : Solver} {options : Table Value}

/-- The system that a call leaves, and whether it succeeds. -/
def effect (s : EquationSystem) : SolverCall → EquationSystem × Except Fault Unit
  | install r library => (setSolver r library).effect s
  | solve request library => (EquationSystem.solve request library).effect s

/-- Why a call is refused before a solver is run, if it is. -/
def refusal? (s : EquationSystem) : SolverCall → Option Fault
  | install r library => r.refusal? library
  | solve request library =>
      if s.model.isNone then some .noModel
      else match request with
        | some r => r.refusal? library
        | none => if s.solver.isNone then some .noOptimizer else none

/-- A call is accepted with a solver and what it is told if its request selects them, and if there
is a model to be solved. -/
inductive Accepts (s : EquationSystem) : SolverCall → Solver → Table Value → Prop
  | install {r : SolverRequest} {library : SolverLibrary} {solver : Solver}
      {options : Table Value} : r.Selects library solver options →
      Accepts s (.install r library) solver options
  | solve {m : Model} {r : SolverRequest} {library : SolverLibrary} {solver : Solver}
      {options : Table Value} : s.model = some m → r.Selects library solver options →
      Accepts s (.solve (some r) library) solver options

theorem Accepts.congr (hm : t.model = s.model) (h : call.Accepts s solver options) :
    call.Accepts t solver options := by
  cases h with
  | install hselects => exact .install hselects
  | solve hmodel hselects => exact .solve (hm.trans hmodel) hselects

/-- A refused call changes nothing. -/
theorem effect_of_refusal (h : call.refusal? s = some e) : call.effect s = (s, .error e) := by
  cases call with
  | install r library => exact effect_setSolver_of_refusal h
  | solve request library =>
    cases hm : s.model with
    | none =>
      obtain rfl : Fault.noModel = e := by simpa [refusal?, hm] using h
      exact effect_solve_noModel hm request
    | some m =>
      cases request with
      | some r => exact effect_solve_of_refusal hm (by simpa [refusal?, hm] using h)
      | none =>
        obtain ⟨hs, rfl⟩ : s.solver = none ∧ Fault.noOptimizer = e := by
          simpa [refusal?, hm] using h
        exact effect_solve_noOptimizer hm hs

theorem not_accepts_of_refusal (h : call.refusal? s = some e) :
    ¬ call.Accepts s solver options := by
  intro haccepts
  cases haccepts with
  | install hselects => exact SolverRequest.not_selects_of_refusal h hselects
  | @solve m r library solver options hm hselects =>
    have hr : r.refusal? library = some e := by simpa [refusal?, hm] using h
    exact r.not_selects_of_refusal hr hselects

/-- A solve that is not refused runs the solver that is asked for, or else the installed one, with
what it is told. -/
theorem exists_solving {request : Option SolverRequest}
    (h : (SolverCall.solve request library).refusal? s = none) :
    ∃ m solver options, s.model = some m ∧
      ((SolverCall.solve request library).Accepts s solver options ∨
        request = none ∧ s.solver = some solver ∧ s.solveOptions = options) ∧
      (EquationSystem.solve request library).effect s =
        (solveWith m solver).effect (s.withSolver solver options) := by
  cases hm : s.model with
  | none => simp [refusal?, hm] at h
  | some m =>
    cases request with
    | some r =>
      have hr : r.refusal? library = none := by simpa [refusal?, hm] using h
      obtain ⟨solver, options, hselects⟩ := r.exists_selects hr
      exact ⟨m, solver, options, rfl, .inl (.solve hm hselects),
        effect_solve_of_selects hm hselects⟩
    | none =>
      have hs : s.solver.isSome = true := by
        simpa [refusal?, hm, Option.isSome_iff_ne_none] using h
      obtain ⟨solver, hsolver⟩ := Option.isSome_iff_exists.mp hs
      have hsame : s.withSolver solver s.solveOptions = s := by
        rw [withSolver, ← hsolver]
      refine ⟨m, solver, s.solveOptions, rfl, .inr ⟨rfl, hsolver, rfl⟩, ?_⟩
      rw [hsame]
      exact effect_solve_installed hm hsolver

/-- A call leaves the solver and what it is told as they were, or installs what it is accepted with.
-/
theorem solver_of_effect (s : EquationSystem) (call : SolverCall) :
    let t := (call.effect s).1
    t.model = s.model ∧
      ((∃ solver options, call.Accepts s solver options ∧ t.solver = some solver ∧
          t.solveOptions = options) ∨
        (∀ solver options, ¬ call.Accepts s solver options) ∧ t.solver = s.solver ∧
          t.solveOptions = s.solveOptions) := by
  cases hr : call.refusal? s with
  | some e =>
    rw [effect_of_refusal hr]
    exact ⟨rfl, .inr ⟨fun _ _ => not_accepts_of_refusal hr, rfl, rfl⟩⟩
  | none =>
    cases call with
    | install r library =>
      obtain ⟨solver, options, hselects⟩ := r.exists_selects hr
      rw [effect, effect_setSolver_of_selects hselects]
      exact ⟨rfl, .inl ⟨solver, options, .install hselects, rfl, rfl⟩⟩
    | solve request library =>
      obtain ⟨m, solver, options, -, hchosen, hsolve⟩ := exists_solving hr
      obtain ⟨vars, equations, results, hframe⟩ :=
        solveWith_frame m solver (s.withSolver solver options)
      rw [effect, hsolve, hframe]
      obtain haccepts | ⟨rfl, hs, ho⟩ := hchosen
      · exact ⟨rfl, .inl ⟨solver, options, haccepts, rfl, rfl⟩⟩
      · exact ⟨rfl, .inr ⟨nofun, hs.symm, ho.symm⟩⟩

end SolverCall

namespace EquationSystem

/-- The system after some calls, whether they succeed or fail. -/
def afterCalls (s : EquationSystem) (calls : List SolverCall) : EquationSystem :=
  calls.foldl (fun s call => (call.effect s).1) s

theorem afterCalls_concat (s : EquationSystem) (calls : List SolverCall) (call : SolverCall) :
    s.afterCalls (calls ++ [call]) = (call.effect (s.afterCalls calls)).1 := by
  rw [afterCalls, List.foldl_append]
  rfl

/-- The solver of a system and what it is told come from the last accepted one of some calls, or are
what they were before the calls if none was accepted. -/
def HasSolverFrom (s : EquationSystem) (calls : List SolverCall) (t : EquationSystem) : Prop :=
  (∃ before call after solver options, calls = before ++ call :: after ∧
      call.Accepts s solver options ∧
      (∀ later ∈ after, ∀ solver options, ¬ later.Accepts s solver options) ∧
      t.solver = some solver ∧ t.solveOptions = options) ∨
    (∀ call ∈ calls, ∀ solver options, ¬ call.Accepts s solver options) ∧
      t.solver = s.solver ∧ t.solveOptions = s.solveOptions

theorem solver_afterCalls (s : EquationSystem) (calls : List SolverCall) :
    (s.afterCalls calls).model = s.model ∧ s.HasSolverFrom calls (s.afterCalls calls) := by
  induction calls using List.reverseRecOn with
  | nil => exact ⟨rfl, .inr ⟨nofun, rfl, rfl⟩⟩
  | append_singleton calls call ih =>
    obtain ⟨hmodel, hsolver⟩ := ih
    obtain ⟨hsame, hstep⟩ := call.solver_of_effect (s.afterCalls calls)
    rw [afterCalls_concat]
    refine ⟨hsame.trans hmodel, ?_⟩
    obtain ⟨solver, options, haccepts, hnew⟩ | ⟨hrefused, hkept, hkeptOptions⟩ := hstep
    · -- the new call is the last accepted one
      exact .inl ⟨calls, call, [], solver, options, rfl, haccepts.congr hmodel.symm, nofun, hnew⟩
    · have hnot : ∀ solver options, ¬ call.Accepts s solver options :=
        fun solver options haccepts => hrefused solver options (haccepts.congr hmodel)
      rw [HasSolverFrom, hkept, hkeptOptions]
      obtain ⟨before, last, after, solver, options, rfl, hlast, hafter, hinstalled⟩ |
        ⟨hnone, hinstalled⟩ := hsolver
      · refine .inl ⟨before, last, after ++ [call], solver, options, by simp, hlast, ?_, hinstalled⟩
        exact List.forall_mem_append.mpr ⟨hafter, List.forall_mem_singleton.mpr hnot⟩
      · refine .inr ⟨?_, hinstalled⟩
        exact List.forall_mem_append.mpr ⟨hnone, List.forall_mem_singleton.mpr hnot⟩

/-- **Installing and solving fail cleanly.** After any calls, the installed solver and what it is
told are those of the last call that was accepted, or what they were in the beginning. From then on,
a call that is refused leaves the whole system as it is: one without a model or an installed solver
where these are needed, and one whose solver is unsupported, not at hand or cannot be made. All
other solves run the solver that is asked for or installed, with what it is told, and if that fails
the solve fails for the same reason, and the results and the records are as before. -/
theorem solver_calls_fail_cleanly (s : EquationSystem) (calls : List SolverCall) :
    let t := s.afterCalls calls
    s.HasSolverFrom calls t ∧
    (∀ (call : SolverCall) (e : Fault), call.refusal? t = some e → call.effect t = (t, .error e)) ∧
    ∀ (request : Option SolverRequest) (library : SolverLibrary),
      (SolverCall.solve request library).refusal? t = none → ∃ m solver options,
      t.model = some m ∧
      ((SolverCall.solve request library).Accepts t solver options ∨
        request = none ∧ t.solver = some solver ∧ t.solveOptions = options) ∧
      ∀ u e, (runSolver m solver).effect (t.withSolver solver options) = (u, .error e) →
        (solve request library).effect t = (u, .error e) ∧ u.results = t.results ∧
          u.equations = t.equations := by
  intro t
  refine ⟨(s.solver_afterCalls calls).2, fun call e => SolverCall.effect_of_refusal, ?_⟩
  intro request library hr
  obtain ⟨m, solver, options, hm, hchosen, hsolve⟩ := SolverCall.exists_solving hr
  refine ⟨m, solver, options, hm, hchosen, fun u e hrun => ?_⟩
  -- what the solver has assigned before it fails is all that has changed
  obtain ⟨vars, hframe⟩ := runSolver_frame m solver (t.withSolver solver options)
  rw [hrun] at hframe
  obtain rfl : u = { t.withSolver solver options with vars := vars } := hframe
  exact ⟨hsolve.trans (effect_solveWith_of_error hrun), rfl, rfl⟩

/-- A system with one variable and a model. -/
def withSolvable : EquationSystem :=
  { new (some ⟨"model", ⟨[("x", .ofVar 0)]⟩⟩) with
    vars := [⟨"x", some (.int 3), false, none, none⟩]
    registry := ⟨[("x", .ofVar 0)]⟩ }

/-- A solver that assigns a value and then fails. -/
def failing : Solver := .object ⟨fun _ _ _ => ([("x", some (.int 5))], .error .solverFailure)⟩

/-- The solver of a configuration stays, and is told to show its output, through two refused calls.
A solver that fails then leaves its value, and neither results nor another record. -/
theorem solver_calls_fail_cleanly_after_refused_calls :
    let t := withSolvable.afterCalls
      [.install (.configured ⟨"mpec_nlp", Table.empty, true⟩) .standard,
        .solve (some (.foreign (.number (.int 3)))) .standard,
        .install (.named "ipopt") .standard]
    t.solver = some (.program "mpec_nlp" Table.empty) ∧
      t.solveOptions = Table.empty.insert "tee" (.bool true) ∧
      (SolverCall.install (.named "") .standard).effect t =
        (t, .error (.invalid [⟨[.field "solver"], .tooShort⟩])) ∧
      ∃ u, (solve (some (.object failing))).effect t = (u, .error .solverFailure) ∧
        u.results = t.results ∧ u.equations = t.equations ∧
        u.vars = [⟨"x", some (.int 5), false, none, none⟩] := by
  intro t
  obtain ⟨-, hrefused, hfails⟩ := withSolvable.solver_calls_fail_cleanly
    [.install (.configured ⟨"mpec_nlp", Table.empty, true⟩) .standard,
      .solve (some (.foreign (.number (.int 3)))) .standard, .install (.named "ipopt") .standard]
  refine ⟨rfl, rfl, hrefused _ _ rfl, ?_⟩
  obtain ⟨m, solver, options, hm, haccepts | ⟨hnone, -⟩, hrun⟩ :=
    hfails (some (.object failing)) .standard rfl
  · cases haccepts with
    | solve hmodel hselects =>
      cases hselects
      cases hm
      obtain ⟨hsolve, hresults, hequations⟩ := hrun _ _ rfl
      exact ⟨_, hsolve, hresults, hequations, rfl⟩
  · cases hnone

end EquationSystem

end Equilibrium

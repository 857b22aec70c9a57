/-
Settings that are loaded.

Each field of a form is read on its own. Without an entry it has its default; with one it passes its
check, or is refused with flaws that name it. So whatever a file holds, the settings that are loaded
from it are in range, those that nobody checked included, and a refusal names the fields that it is
about.

* `Form.of_field`, `Form.flaws_field` - what is read in a field, and how a field is refused;
* `Settings.InRange`, `Settings.inRange_default` - the ranges, and that the defaults are in them;
* `Settings.inRange_of_ofForm`, `Settings.flaws_ofForm` - settings that are read from a form;
* `Settings.Loads`, `Settings.load_inRange` - and those that are loaded from a file.
-/
import Equilibrium.Settings
import Equilibrium.Proofs.Results

namespace Equilibrium

namespace Checked

variable {α β : Type}

theorem map_eq_ok {x : Checked α} {f : α → β} {b : β} :
    x.map f = ok b ↔ ∃ a, x = ok a ∧ f a = b := by
  constructor
  · intro h
    cases x with
    | error flaws => cases h
    | ok a => exact ⟨a, rfl, Except.ok.inj h⟩
  · rintro ⟨a, rfl, rfl⟩
    rfl

theorem andThen_eq_ok {x : Checked α} {f : α → Checked β} {b : β} :
    x.andThen f = ok b ↔ ∃ a, x = ok a ∧ f a = ok b := by
  constructor
  · intro h
    cases x with
    | error flaws => cases h
    | ok a => exact ⟨a, rfl, h⟩
  · rintro ⟨a, rfl, h⟩
    exact h

theorem within_eq_ok {step : Step} {x : Checked α} {a : α} :
    x.within step = ok a ↔ x = ok a := by
  cases x with
  | error flaws =>
    constructor
    · intro h
      cases h
    · intro h
      cases h
  | ok b => rfl

theorem flaws_within (step : Step) (x : Checked α) :
    (x.within step).flaws = x.flaws.map (Flaw.within step) := by
  cases x <;> rfl

end Checked

/-! ### Fields -/

namespace Form

variable {α : Type} {form : Form} {name : String} {item : Value → Checked α} {default a : α}

theorem field_of_some {v : Value} (h : form.get? name = some v) :
    field form name item default = Checked.within (.field name) (item v) := by
  rw [field, h]

theorem field_of_none (h : form.get? name = none) :
    field form name item default = Checked.ok default := by
  rw [field, h]

/-- What holds of the default, and of all that the check lets pass, holds of what is read. -/
theorem of_field {P : α → Prop} (h : field form name item default = .ok a) (hdefault : P default)
    (hitem : ∀ v b, item v = .ok b → P b) : P a := by
  cases hget : form.get? name with
  | none =>
    rw [field_of_none hget] at h
    cases h
    exact hdefault
  | some v =>
    rw [field_of_some hget] at h
    exact hitem v a (Checked.within_eq_ok.mp h)

/-- A field is refused only if the form has an entry for it, and the flaws name the field. -/
theorem flaws_field {f : Flaw} (h : f ∈ (field form name item default).flaws) :
    (form.get? name).isSome = true ∧ f.path.head? = some (.field name) := by
  cases hget : form.get? name with
  | none =>
    rw [field_of_none hget] at h
    cases h
  | some v =>
    rw [field_of_some hget, Checked.flaws_within] at h
    obtain ⟨g, -, rfl⟩ := List.mem_map.mp h
    exact ⟨rfl, rfl⟩

theorem of_realAbove {limit x : Float} {v : Value} (h : realAbove limit v = .ok x) : x > limit := by
  obtain ⟨y, -, hy⟩ := Checked.andThen_eq_ok.mp h
  split at hy
  · next habove =>
    cases hy
    exact habove
  · cases hy

theorem of_realFrom {limit x : Float} {v : Value} (h : realFrom limit v = .ok x) : x ≥ limit := by
  obtain ⟨y, -, hy⟩ := Checked.andThen_eq_ok.mp h
  split at hy
  · next hfrom =>
    cases hy
    exact hfrom
  · cases hy

theorem of_wholeFrom {limit n : Int} {v : Value} (h : wholeFrom limit v = .ok n) : limit ≤ n := by
  obtain ⟨m, -, hm⟩ := Checked.andThen_eq_ok.mp h
  split at hm
  · next hfrom =>
    cases hm
    exact hfrom
  · cases hm

theorem of_someText {s : String} {v : Value} (h : someText v = .ok s) : s ≠ "" := by
  obtain ⟨t, -, ht⟩ := Checked.andThen_eq_ok.mp h
  split at ht
  · cases ht
  · next hempty =>
    cases ht
    simpa using hempty

/-- Something that may be missing passes its check if it is there. -/
theorem of_optional {v : Value} (h : optional item v = .ok (some a)) : item v = .ok a := by
  rw [optional.eq_def] at h
  split at h
  · cases h
  · obtain ⟨b, hb, hsome⟩ := Checked.map_eq_ok.mp h
    cases hsome
    exact hb

end Form

/-! ### Ranges -/

namespace SolverConfig

variable {form : Form} {c : SolverConfig}

theorem solver_of_ofForm (h : ofForm form = .ok c) : c.solver ≠ "" := by
  obtain ⟨⟨solver, options, tee⟩, hfields, rfl⟩ := Checked.map_eq_ok.mp h
  rw [Checked.both_eq_ok] at hfields
  exact Form.of_field (P := (· ≠ "")) hfields.1 (by decide) fun _ _ => Form.of_someText

theorem solver_of_ofValue {v : Value} (h : ofValue v = .ok c) : c.solver ≠ "" := by
  cases v with
  | map entries => exact solver_of_ofForm h
  | _ => cases h

end SolverConfig

namespace Settings

variable {form : Form} {settings : Settings}

/-- Settings are in range: the tolerance and the greater threshold are positive, the smaller one and
the number of rows are not negative, and the id and the solver have names. -/
structure InRange (settings : Settings) : Prop where
  tol : settings.tol > 0.0
  datasetId : settings.datasetId ≠ ""
  topResiduals : 0 ≤ settings.topResiduals
  scalingMax : settings.scalingMax > 0.0
  scalingMin : settings.scalingMin ≥ 0.0
  optimizer : ∀ c, settings.optimizer = some c → c.solver ≠ ""

/-- The defaults would pass the checks that they are not put to. -/
theorem inRange_default : InRange {} where
  tol := by decide +kernel
  datasetId := by decide
  topResiduals := by decide
  scalingMax := by decide +kernel
  scalingMin := by decide +kernel
  optimizer := by simp

theorem inRange_of_ofForm (h : ofForm form = .ok settings) : settings.InRange := by
  obtain ⟨⟨tol, datasetId, level, topResiduals, scalingMax, scalingMin, optimizer⟩, hfields, rfl⟩ :=
    Checked.map_eq_ok.mp h
  simp only [Checked.both_eq_ok] at hfields
  obtain ⟨htol, hid, -, hrows, hmax, hmin, hsolver⟩ := hfields
  exact {
    tol := Form.of_field (P := (· > 0.0)) htol inRange_default.tol fun _ _ => Form.of_realAbove
    datasetId := Form.of_field (P := (· ≠ "")) hid inRange_default.datasetId fun _ _ =>
      Form.of_someText
    topResiduals := Form.of_field (P := (0 ≤ ·)) hrows inRange_default.topResiduals fun _ _ =>
      Form.of_wholeFrom
    scalingMax := Form.of_field (P := (· > 0.0)) hmax inRange_default.scalingMax fun _ _ =>
      Form.of_realAbove
    scalingMin := Form.of_field (P := (· ≥ 0.0)) hmin inRange_default.scalingMin fun _ _ =>
      Form.of_realFrom
    optimizer := by
      refine Form.of_field (P := fun o => ∀ c, o = some c → c.solver ≠ "") hsolver
        inRange_default.optimizer fun v o ho c hc => ?_
      subst hc
      exact SolverConfig.solver_of_ofValue (Form.of_optional ho) }

/-- The names of the fields, in their order. -/
def fieldNames : List String :=
  ["tol", "dataset_id", "validation_level", "top_residuals", "scaling_max", "scaling_min",
    "optimizer"]

/-- Each flaw is found in an entry of the form that has the name of a field. -/
theorem flaws_ofForm {f : Flaw} (h : f ∈ (ofForm form).flaws) :
    ∃ name ∈ fieldNames, (form.get? name).isSome = true ∧ f.path.head? = some (.field name) := by
  simp only [ofForm, Checked.flaws_map, Checked.both_flaws, List.mem_append] at h
  rcases h with h | h | h | h | h | h | h
  all_goals exact ⟨_, by simp [fieldNames], Form.flaws_field h⟩

/-! ### Files -/

/-- The ways in which loading can end: with the defaults, with settings that were read from a form,
with the flaws of a form, or before there is a form. -/
inductive Loads (path : String) : Except Fault Settings → Prop
  | defaults : Loads path (.ok {})
  | read {form : Form} {settings : Settings} : ofForm form = .ok settings →
      Loads path (.ok settings)
  | invalid {form : Form} {flaws : List Flaw} : ofForm form = .error flaws →
      Loads path (.error (.settingsInvalid path flaws))
  | refused {e : Fault} : e ∈ [.settingsNotFound path, .malformedSettings, .settingsNotMapping,
      .settingsOptimizer] → Loads path (.error e)

variable {path : String}

theorem expandSolver_eq_error {e : Fault} (h : expandSolver form = .error e) :
    e = .settingsOptimizer := by
  rw [expandSolver] at h
  split at h
  all_goals cases h
  rfl

theorem loads_ofPayload (v : Value) : Loads path (ofPayload path v) := by
  cases v with
  | none => exact .defaults
  | map entries =>
    cases hform : expandSolver (Form.ofEntries entries) with
    | error e =>
      rw [ofPayload, hform, expandSolver_eq_error hform]
      exact .refused (by simp)
    | ok form =>
      rw [ofPayload, hform]
      cases hread : ofForm form with
      | ok settings =>
        simp only [bind, Except.bind, hread]
        exact .read hread
      | error flaws =>
        simp only [bind, Except.bind, hread]
        exact .invalid hread
  | _ => exact .refused (by simp)

theorem loads_load (file : SettingsFile) : Loads path (load path file) := by
  cases file with
  | missing => exact .refused (by simp)
  | holding v => exact loads_ofPayload v
  | text s =>
    rw [load]
    split
    · exact loads_ofPayload _
    · exact .refused (by simp)

/-- **Loaded settings are in range, and a refusal names the fields that it is about**, whatever the
file holds. -/
theorem load_inRange (path : String) (file : SettingsFile) :
    (∀ settings, load path file = .ok settings → settings.InRange) ∧
    ∀ p flaws, load path file = .error (.settingsInvalid p flaws) → p = path ∧
      ∀ f ∈ flaws, ∃ name ∈ fieldNames, f.path.head? = some (.field name) := by
  have hloads : Loads path (load path file) := loads_load file
  constructor
  · intro settings h
    rw [h] at hloads
    cases hloads with
    | defaults => exact inRange_default
    | read hread => exact inRange_of_ofForm hread
  · intro p flaws h
    rw [h] at hloads
    cases hloads with
    | @invalid form _ hread =>
      refine ⟨rfl, fun f hf => ?_⟩
      have hflaws : (ofForm form).flaws = flaws := by rw [hread, Checked.flaws]
      obtain ⟨name, hname, -, hpath⟩ := flaws_ofForm (hflaws ▸ hf)
      exact ⟨name, hname, hpath⟩
    | refused he => simp at he

end Settings

end Equilibrium

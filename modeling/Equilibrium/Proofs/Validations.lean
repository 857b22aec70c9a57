/-
When a validation gives a report.

A validation records what it finds as warnings and notes, never as errors. The one thing that ends
it is a value that is not read as a double, and only the full level reads values: a whole number out
of range, say, which is the value of a variable.

* `Validation.validate_eq_ok` - what a report is made of;
* `Validation.findings_report` - the findings of its categories;
* `Validation.report_passes` - findings without errors make a report that passes;
* `Validation.validate_reports` - at the full level there is a report exactly if the registered
  variables are readable, at the basic level always, and every report passes;
* `Validation.large_value_ends_validation` - a variable that is not readable.
-/
import Equilibrium.Proofs.Snapshots
import Equilibrium.Validation
import Mathlib.Algebra.Group.Int.Defs

namespace Equilibrium.Validation

variable {s : EquationSystem} {data level : Value} {tol : Float} {settings : Settings} {l : Level}
  {structural residuals pairing scaling : Findings} {r : Report}

/-! ### Reports -/

theorem keys_report : (report structural residuals pairing scaling).categories.keys =
    ["structural", "residuals", "mcp", "scaling"] := rfl

/-- Each category holds its own findings. -/
theorem findings_report (structural residuals pairing scaling : Findings) :
    (report structural residuals pairing scaling).findings .structural = structural ∧
      (report structural residuals pairing scaling).findings .residuals = residuals ∧
      (report structural residuals pairing scaling).findings .mcp = pairing ∧
      (report structural residuals pairing scaling).findings .scaling = scaling :=
  ⟨rfl, rfl, rfl, rfl⟩

theorem report_passes (hstructural : structural.errors = []) (hresiduals : residuals.errors = [])
    (hpairing : pairing.errors = []) (hscaling : scaling.errors = []) :
    (report structural residuals pairing scaling).errors = 0 ∧
      (report structural residuals pairing scaling).ok = true := by
  have herrors : (report structural residuals pairing scaling).errors =
      (structural.errors ++ (residuals.errors ++
        (pairing.errors ++ (scaling.errors ++ [])))).length := rfl
  have hcount : (report structural residuals pairing scaling).errors = 0 := by
    rw [herrors, hstructural, hresiduals, hpairing, hscaling]
    rfl
  exact ⟨hcount, (Report.ok_finalize _).mpr hcount⟩

/-! ### Findings -/

theorem errors_residualFindings (s : EquationSystem) (l : Level) (tol : Float)
    (settings : Settings) : (residualFindings s l tol settings).errors = [] := by
  rw [residualFindings]
  split <;> rfl

theorem errors_pairingFindings (s : EquationSystem) : (pairingFindings s).errors = [] := by
  rw [pairingFindings]
  split <;> rfl

theorem errors_scalingFindings (settings : Settings) (values : List Float) :
    (scalingFindings settings values).errors = [] := by
  rw [scalingFindings]
  split <;> rfl

theorem errors_variableFindings (h : variableFindings s l settings = .ok scaling) :
    scaling.errors = [] := by
  cases l with
  | basic =>
    cases h
    rfl
  | full =>
    obtain ⟨values, -, rfl⟩ := map_eq_ok.mp h
    exact errors_scalingFindings settings _

/-- A report is made of the findings of the four checks. -/
theorem validate_eq_ok : validate s data level tol settings = .ok r ↔
    ∃ l scaling, Level.ofValue level = .ok l ∧ variableFindings s l settings = .ok scaling ∧
      report (structureFindings s data) (residualFindings s l tol settings) (pairingFindings s)
        scaling = r := by
  rw [validate, bind_eq_ok]
  constructor
  · rintro ⟨l, hl, h⟩
    obtain ⟨scaling, hscaling, h⟩ := bind_eq_ok.mp h
    exact ⟨l, scaling, hl, hscaling, Except.ok.inj h⟩
  · rintro ⟨l, scaling, hl, hscaling, h⟩
    exact ⟨l, hl, bind_eq_ok.mpr ⟨scaling, hscaling, congrArg Except.ok h⟩⟩

/-- The values of the variables are looked at with readable variables, or not at all. -/
theorem variableFindings_of_readable (h : l = .full → s.Readable) (settings : Settings) :
    ∃ scaling, variableFindings s l settings = .ok scaling := by
  cases l with
  | basic => exact ⟨{}, rfl⟩
  | full =>
    rw [variableFindings, s.snapshot_eq (h rfl)]
    exact ⟨_, rfl⟩

/-- A registered variable that is not readable ends a validation at the full level. -/
theorem validate_of_not_readable (hlevel : Level.ofValue level = .ok .full) (h : ¬ s.Readable)
    (data : Value) (tol : Float) (settings : Settings) :
    ∃ id n, (∃ name, (name, Handle.ofVar id) ∈ s.registry.entries) ∧ s.assignment id = some n ∧
      n.isReadable = false ∧ validate s data level tol settings = .error n.refusal := by
  obtain ⟨id, n, hregistered, hn, hunreadable, herror⟩ := s.snapshot_of_not_readable h
  refine ⟨id, n, hregistered, hn, hunreadable, ?_⟩
  rw [validate, hlevel]
  show (variableFindings s .full settings >>= _) = _
  rw [variableFindings, herror]
  rfl

/-- **A validation gives a report, unless it reads a value that is no double.** At a known level,
the basic one always gives a report, and the full one exactly if the value of every registered
variable, where there is one, is a double or a whole number in the range of doubles. Every report
has the four categories and no error, so it passes. Otherwise the validation fails, and the reason
is one of these values. -/
theorem validate_reports (s : EquationSystem) (data level : Value) (tol : Float)
    (settings : Settings) {l : Level} (hlevel : Level.ofValue level = .ok l) :
    ((∃ r, validate s data level tol settings = .ok r) ↔ (l = .full → s.Readable)) ∧
    (∀ r, validate s data level tol settings = .ok r →
      r.categories.keys = ["structural", "residuals", "mcp", "scaling"] ∧ r.errors = 0 ∧
        r.ok = true) ∧
    (l = .full → ¬ s.Readable →
      ∃ id n, (∃ name, (name, Handle.ofVar id) ∈ s.registry.entries) ∧ s.assignment id = some n ∧
        n.isReadable = false ∧ validate s data level tol settings = .error n.refusal) := by
  refine ⟨⟨?_, ?_⟩, ?_, ?_⟩
  · rintro ⟨r, hr⟩ rfl
    by_contra hnot
    obtain ⟨id, n, -, -, -, herror⟩ := validate_of_not_readable hlevel hnot data tol settings
    rw [herror] at hr
    cases hr
  · intro hreadable
    obtain ⟨scaling, hscaling⟩ := variableFindings_of_readable hreadable settings
    exact ⟨_, validate_eq_ok.mpr ⟨l, scaling, hlevel, hscaling, rfl⟩⟩
  · intro r hr
    obtain ⟨l', scaling, -, hscaling, rfl⟩ := validate_eq_ok.mp hr
    exact ⟨keys_report, report_passes rfl (errors_residualFindings s l' tol settings)
      (errors_pairingFindings s) (errors_variableFindings hscaling)⟩
  · rintro rfl hnot
    exact validate_of_not_readable hlevel hnot data tol settings

/-- A system with one variable, which has this value. -/
def withValue (n : Number) : EquationSystem := { EquationSystem.new (some (.empty "model")) with
  vars := [⟨"x", some n, false, none, none⟩]
  registry := ⟨[("x", .ofVar 0), ("label", .foreign (.text "no variable"))]⟩ }

theorem readable_withValue {n : Number} : (withValue n).Readable ↔ n.isReadable = true := by
  constructor
  · exact fun h => h _ List.mem_cons_self 0 n rfl rfl
  · rintro h e (_ | ⟨_, _ | ⟨_, _ | _⟩⟩) id m hid hm
    · cases hid
      cases hm
      exact h
    · cases hid

/-- A value that is just in the range of doubles, at the full level under another name. -/
theorem validate_reports_value_in_range :
    Level.ofValue (.text " Extended ") = .ok .full ∧
      ∃ r, validate (withValue (.int (2 ^ 1023))) .none (.text " Extended ") 1e-6 {} = .ok r ∧
        r.errors = 0 ∧ r.ok = true := by
  have hlevel : Level.ofValue (.text " Extended ") = .ok .full := rfl
  obtain ⟨hiff, hpasses, -⟩ :=
    validate_reports (withValue (.int (2 ^ 1023))) .none (.text " Extended ") 1e-6 {} hlevel
  obtain ⟨r, hr⟩ := hiff.mpr fun _ => readable_withValue.mpr (by decide +kernel)
  exact ⟨hlevel, r, hr, (hpasses r hr).2⟩

/-- The value `10 ^ 400` of a variable is out of the range of doubles, and a validation at the full
level gives no report. -/
theorem large_value_ends_validation :
    Level.ofValue (.text "full") = .ok .full ∧
      ¬ ∃ r, validate (withValue (.int (10 ^ 400))) .none (.text "full") 1e-6 {} = .ok r := by
  have hlevel : Level.ofValue (.text "full") = .ok .full := rfl
  have hnot : ¬ (withValue (.int (10 ^ 400))).Readable :=
    mt readable_withValue.mp (by decide +kernel)
  refine ⟨hlevel, ?_⟩
  rintro ⟨r, hr⟩
  obtain ⟨id, n, -, -, -, herror⟩ := validate_of_not_readable hlevel hnot .none 1e-6 {}
  rw [herror] at hr
  cases hr

end Equilibrium.Validation

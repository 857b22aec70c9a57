/-
Writing to variables by name.

Variables are fixed by their registered names, and a solver writes to the components of the model.
Both go through a list of names and values, and where no two variables have the same name, each
variable ends with the last value that was written under its name, or with the value that it had:

* `valueAfter` - the value of a variable after some writes;
* `EquationSystem.Written` - the effect of writes on a system, `Written.trans` puts two together;
* `EquationSystem.written_of_fixVariables`, `EquationSystem.written_of_writeComponents` - fixing
  variables and a solver's writes have this effect.
-/
import Equilibrium.Proofs.Effects
import Equilibrium.Run

namespace Equilibrium

open Equilibrium.Action

/-- The value of a variable after some writes. Later ones win, those under other names are nothing
to it. -/
def valueAfter (name : String) (value : Option Number) (writes : List (String × Option Number)) :
    Option Number :=
  writes.foldl (fun value w => if w.1 = name then w.2 else value) value

theorem valueAfter_append (name : String) (value : Option Number)
    (writes more : List (String × Option Number)) :
    valueAfter name value (writes ++ more) = valueAfter name (valueAfter name value writes) more :=
  List.foldl_append

namespace EquationSystem

variable {s t u : EquationSystem} {writes more : List (String × Option Number)}

/-- `t` is `s` after some writes: no more than variables have changed, each of them has its name,
and the value that the writes give it. -/
structure Written (writes : List (String × Option Number)) (s t : EquationSystem) : Prop where
  frame : t = { s with vars := t.vars }
  values : t.vars.map (fun v => (v.name, v.value)) =
    s.vars.map fun v => (v.name, valueAfter v.name v.value writes)

theorem Written.refl (s : EquationSystem) : Written [] s s := ⟨rfl, rfl⟩

theorem Written.trans (hst : Written writes s t) (htu : Written more t u) :
    Written (writes ++ more) s u := by
  constructor
  · rw [htu.frame, hst.frame]
  · have hlater := congrArg (List.map fun r => (r.1, valueAfter r.1 r.2 more)) hst.values
    rw [List.map_map, List.map_map] at hlater
    rw [htu.values]
    simp only [valueAfter_append]
    exact hlater

theorem Written.names (h : Written writes s t) :
    t.vars.map Variable.name = s.vars.map Variable.name := by
  have hnames := congrArg (List.map Prod.fst) h.values
  rwa [List.map_map, List.map_map] at hnames

/-- Later writes go on from the values that the earlier ones left. -/
theorem Written.bind_valueAfter (h : Written writes s t)
    (more : List (String × Option Number)) (id : VarId) :
    ((t.vars[id]?).bind fun v => valueAfter v.name v.value more) =
      (s.vars[id]?).bind fun v => valueAfter v.name v.value (writes ++ more) := by
  have hid := congrArg (fun values => (values[id]?).bind fun r => valueAfter r.1 r.2 more) h.values
  simpa only [List.getElem?_map, Option.bind_map, Function.comp_def, valueAfter_append] using hid

theorem Written.assignment (h : Written writes s t) (id : VarId) :
    t.assignment id = (s.vars[id]?).bind fun v => valueAfter v.name v.value writes := by
  have hid := h.bind_valueAfter [] id
  rwa [List.append_nil] at hid

/-- A write to the variable at a position is a write under its name. -/
theorem written_modifyVariable (hnames : (s.vars.map Variable.name).Nodup) {id : VarId}
    {name : String} (hid : (s.vars.map Variable.name)[id]? = some name) {value : Option Number}
    {f : Variable → Variable} (hname : ∀ v, (f v).name = v.name)
    (hvalue : ∀ v, (f v).value = value) : Written [(name, value)] s (s.modifyVariable id f) := by
  refine ⟨rfl, List.ext_getElem? fun other => ?_⟩
  rw [modifyVariable, List.getElem?_map, List.getElem?_map, List.getElem?_modify]
  cases hv : s.vars[other]? with
  | none => rfl
  | some v =>
    have hother : (s.vars.map Variable.name)[other]? = some v.name := by
      rw [List.getElem?_map, hv]
      rfl
    by_cases heq : id = other
    · obtain rfl : name = v.name := by
        rw [heq, hother] at hid
        exact (Option.some.inj hid).symm
      simp [heq, hname, hvalue, valueAfter]
    · -- a name is found at one position only
      have hne : name ≠ v.name := by
        rintro rfl
        have hlt := (List.getElem?_eq_some_iff.mp hid).1
        exact heq ((List.getElem?_inj hlt hnames).mp (hid.trans hother.symm))
      simp [heq, valueAfter, hne]

/-- Fixing registered variables, each of which has its registered name. -/
theorem written_of_fixVariables (hnames : (s.vars.map Variable.name).Nodup)
    (hregistry : ∀ name id, s.varId? name = some id →
      (s.vars.map Variable.name)[id]? = some name)
    (h : (fixVariables writes).effect s = (t, .ok ())) : Written writes s t := by
  induction writes generalizing s with
  | nil =>
    obtain ⟨rfl, -⟩ : s = t ∧ _ := Prod.mk.inj h
    exact Written.refl s
  | cons w rest ih =>
    obtain ⟨name, value⟩ := w
    rw [effect, fixVariables] at h
    split at h
    · next id hid =>
      have hfirst : Written [(name, value)] s (s.modifyVariable id (·.fix value)) :=
        written_modifyVariable hnames (hregistry name id hid) (fun _ => rfl) fun _ => rfl
      have hsame := hfirst.names
      refine hfirst.trans (ih ?_ ?_ h)
      · rwa [hsame]
      · rwa [hsame]
    · simp at h

/-- Writing to components of a model, in which each variable has its name as well. -/
theorem written_of_writeComponents {m : Model} (hnames : (s.vars.map Variable.name).Nodup)
    (hmodel : ∀ name id, m.get? name = some (.ofVar id) →
      (s.vars.map Variable.name)[id]? = some name)
    (h : (writeComponents m writes).effect s = (t, .ok ())) : Written writes s t := by
  induction writes generalizing s with
  | nil =>
    obtain ⟨rfl, -⟩ : s = t ∧ _ := Prod.mk.inj h
    exact Written.refl s
  | cons w rest ih =>
    obtain ⟨name, value⟩ := w
    rw [effect, writeComponents, writeComponent] at h
    split at h
    · next u hu =>
      split at hu
      · next id hid =>
        obtain rfl := Except.ok.inj hu
        have hfirst : Written [(name, value)] s (s.assign id value) :=
          written_modifyVariable hnames (hmodel name id hid) (fun _ => rfl) fun _ => rfl
        have hsame := hfirst.names
        refine hfirst.trans (ih ?_ ?_ h)
        · rwa [hsame]
        · rwa [hsame]
      · cases hu
    · simp at h

end EquationSystem

end Equilibrium

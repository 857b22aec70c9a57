/-
The pass over the equation records.

Compiling the equations of a system goes through its records in order. What a visit makes of a
record depends on the record itself, on the variables and the registry, and on the names that the
model has given away; a visit that fails changes nothing. So a pass that fails is a pass over the
records before the failure, and leaves the rest alone:

* `EquationSystem.pass` - the pass as a function of the records and the model;
* `EquationSystem.effect_visitRecords`, `EquationSystem.effect_compileEquations` - it is what the
  system does;
* `EquationSystem.pass_append`, `EquationSystem.pass_split` - a pass goes on where a shorter one
  ended, and ends before the first visit that fails.
-/
import Equilibrium.Proofs.Effects
import Equilibrium.Proofs.Refresh
import Mathlib.Tactic.Tauto

namespace Equilibrium

/-! ### Records that are to be compiled -/

namespace Record

/-- The payload and the equation of a record that is to be compiled. There is none if the payload is
not structured or carries a constraint, and if the equation is absent, documentation or no term. -/
def pending? (r : Record) : Option (Payload × Term) :=
  r.structured?.bind fun p => match p.constraint, p.equation with
    | none, some equation => if equation.isCompilable then some (p, equation) else none
    | _, _ => none

/-- The record with a compiled constraint, if it has a structured payload. -/
def attach (r : Record) (c : Constraint) : Record :=
  match r.content with
  | .structured p =>
      { r with content := .structured { p with constraint := some (.compiled c) } }
  | .foreign _ => r

/-- The objective that is known after a record. -/
def nextObjective (known : Option ObjectiveSpec) (r : Record) :
    Except Fault (Option ObjectiveSpec) :=
  match r.structured? with
  | none => .ok known
  | some p => EquationSystem.nextObjective known p

variable {r : Record} {p : Payload} {equation : Term}

theorem structured?_eq_some : r.structured? = some p ↔ r.content = .structured p := by
  rw [structured?]
  cases r.content with
  | structured q => simp
  | foreign v => simp

theorem pending?_eq_some : r.pending? = some (p, equation) ↔
    r.content = .structured p ∧ p.constraint = none ∧ p.equation = some equation ∧
      equation.isCompilable = true := by
  rw [pending?, Option.bind_eq_some_iff]
  constructor
  · rintro ⟨q, hq, h⟩
    split at h
    · next t hc ht =>
      split at h
      · next hcompilable =>
        cases h
        exact ⟨structured?_eq_some.mp hq, hc, ht, hcompilable⟩
      · simp at h
    · simp at h
  · rintro ⟨hr, hc, ht, hcompilable⟩
    refine ⟨p, structured?_eq_some.mpr hr, ?_⟩
    rw [hc, ht]
    exact if_pos hcompilable

theorem withConstraint_eq (h : r.content = .structured p) (c : Constraint) :
    r.withConstraint (some (.compiled c)) = .ok (r.attach c) := by
  rw [withConstraint, attach, h]

theorem compiled?_attach (h : r.content = .structured p) (c : Constraint) :
    (r.attach c).compiled? = some c := by
  rw [attach, h]
  rfl

/-- A record is compiled once. -/
theorem pending?_attach (h : r.content = .structured p) (c : Constraint) :
    (r.attach c).pending? = none := by
  rw [attach, h]
  rfl

/-- Attaching a constraint keeps the objective of a record. -/
theorem nextObjective_attach (known : Option ObjectiveSpec) (r : Record) (c : Constraint) :
    (r.attach c).nextObjective known = r.nextObjective known := by
  rcases r with ⟨tag, block, p | v⟩
  · rfl
  · rfl

end Record

/-- The bindings of an instance: each index name with the index at its place. Without names, or with
more or fewer names than indices, there are none. -/
def Payload.indexBindings (p : Payload) : Bindings :=
  match p.indexNames with
  | some names =>
      if names.length = p.indices.length then Table.ofList (names.zip p.indices) else Table.empty
  | none => Table.empty

theorem Value.display_texts (texts : List String) :
    (texts.map Value.text).map Value.display = texts := by
  rw [List.map_map]
  exact (List.map_congr_left fun s _ => Value.display_text s).trans (List.map_id texts)

theorem Payload.bindings_fst (p : Payload) : p.bindings.1 = p.indexBindings := by
  rw [bindings, indexBindings]
  cases p.indexNames with
  | none => rfl
  | some names =>
    simp only [Option.map_some, Bindings.ofIndices, List.length_map, Value.display_texts]
    split <;> rfl

/-! ### Visiting a record -/

/-- What a pass leaves: the records, the model, and the objective or the reason why it failed. -/
structure Pass where
  records : List Record
  model : Model
  objective : Except Fault (Option ObjectiveSpec)

theorem Pass.ext {a b : Pass} (hrecords : a.records = b.records) (hmodel : a.model = b.model)
    (hobjective : a.objective = b.objective) : a = b := by
  obtain ⟨records, model, objective⟩ := a
  subst hrecords hmodel hobjective
  rfl

namespace EquationSystem

open Equilibrium.Action

/-- The residual and the constraint of the equation of a record, with its own indices and bindings.
-/
def partsOf (s : EquationSystem) (params : Source) (p : Payload) (equation : Term) :
    Except Fault (Expression × Shape) :=
  Equation.parts s.vars (s.scope (params.orElse p.params) p.indices) p.pairing equation
    p.bindings.1

/-- What the pass makes of a record and of the model. -/
def update (s : EquationSystem) (params : Source) (position : Nat) (m : Model) (r : Record) :
    Except Fault (Record × Model) :=
  match r.pending? with
  | none => .ok (r, m)
  | some (p, equation) => (s.partsOf params p equation).map fun parts =>
      let c : Constraint := ⟨m.freshName (componentName position r), parts.1, parts.2⟩
      (r.attach c, m.place c)

/-- A visit to a record: what becomes of it and of the model, and the objective that is known then.
-/
def visit (s : EquationSystem) (params : Source) (position : Nat) (m : Model)
    (known : Option ObjectiveSpec) (r : Record) :
    Except Fault (Record × Model × Option ObjectiveSpec) := do
  let objective ← r.nextObjective known
  let (r', m') ← s.update params position m r
  return (r', m', objective)

/-- The pass over a list of records, from a position on. -/
def pass (s : EquationSystem) (params : Source) (position : Nat) (m : Model)
    (known : Option ObjectiveSpec) : List Record → Pass
  | [] => ⟨[], m, .ok known⟩
  | r :: rest => match s.visit params position m known r with
    | .ok (r', m', objective) =>
        let after := pass s params (position + 1) m' objective rest
        { after with records := r' :: after.records }
    | .error e => ⟨r :: rest, m, .error e⟩

variable {s : EquationSystem} {params : Source} {m : Model} {known : Option ObjectiveSpec}
  {before rest : List Record} {r : Record} {position : Nat}

theorem update_of_pending?_eq_none (h : r.pending? = none) :
    s.update params position m r = .ok (r, m) := by
  rw [update, h]

theorem update_of_pending? {p : Payload} {equation : Term}
    (h : r.pending? = some (p, equation)) :
    s.update params position m r = (s.partsOf params p equation).map fun parts =>
      let c : Constraint := ⟨m.freshName (componentName position r), parts.1, parts.2⟩
      (r.attach c, m.place c) := by
  rw [update, h]

/-- An update that succeeds leaves everything alone, or attaches a constraint under a free name to
the record and places it in the model. -/
theorem update_cases {r' : Record} {m' : Model}
    (h : s.update params position m r = .ok (r', m')) :
    (r.pending? = none ∧ r' = r ∧ m' = m) ∨
      ∃ p equation c, r.pending? = some (p, equation) ∧ r.content = .structured p ∧
        s.partsOf params p equation = .ok (c.residual, c.shape) ∧
        c.name = m.freshName (componentName position r) ∧ r' = r.attach c ∧ m' = m.place c := by
  cases hpending : r.pending? with
  | none =>
    rw [update_of_pending?_eq_none hpending] at h
    cases h
    exact .inl ⟨rfl, rfl, rfl⟩
  | some pending =>
    obtain ⟨p, equation⟩ := pending
    rw [update_of_pending? hpending] at h
    obtain ⟨parts, hparts, hresult⟩ := map_eq_ok.mp h
    obtain ⟨rfl, rfl⟩ := Prod.mk.inj hresult
    exact .inr ⟨p, equation, ⟨m.freshName (componentName position r), parts.1, parts.2⟩, rfl,
      (Record.pending?_eq_some.mp hpending).1, hparts, rfl, rfl, rfl⟩

theorem visit_eq_ok {r' : Record} {m' : Model} {objective : Option ObjectiveSpec} :
    s.visit params position m known r = .ok (r', m', objective) ↔
      r.nextObjective known = .ok objective ∧ s.update params position m r = .ok (r', m') := by
  rw [visit]
  cases r.nextObjective known with
  | error e => simp [bind, Except.bind]
  | ok known' =>
    cases s.update params position m r with
    | error e => simp [bind, Except.bind]
    | ok result =>
      simp only [bind, Except.bind, pure, Except.pure, Except.ok.injEq, Prod.mk.injEq]
      obtain ⟨r₁, m₁⟩ := result
      simp only [Prod.mk.injEq]
      tauto

theorem effect_replaceEquation (hs : s.equations = before ++ r :: rest) (r' : Record) :
    (replaceEquation (Int.ofNat before.length) r').effect s =
      ({ s with equations := before ++ r' :: rest }, .ok ()) := by
  have hposition : positionOf s.equations.length (Int.ofNat before.length) =
      some before.length := by
    rw [positionOf, hs, List.length_append, List.length_cons]
    simp
    omega
  rw [effect, replaceEquation, hposition, hs]
  simp

/-- The equation of a record compiles and its constraint goes into the model and the record, or
nothing is changed. -/
theorem effect_compileRecord (hm : s.model = some m) (hs : s.equations = before ++ r :: rest)
    {p : Payload} (hr : r.content = .structured p) (equation : Term) :
    (compileRecord params before.length r p equation).effect s =
      match s.partsOf params p equation with
      | .ok parts =>
          let c : Constraint := ⟨m.freshName (componentName before.length r), parts.1, parts.2⟩
          ({ s with model := some (m.place c), equations := before ++ r.attach c :: rest }, .ok ())
      | .error e => (s, .error e) := by
  have hcompile := effect_compileEquation hm equation (params.orElse p.params) p.indices
    p.bindings.1 p.pairing (componentName before.length r)
  rw [compileRecord, effect_bind_of_ok (effect_remark _), partsOf]
  cases hparts : Equation.parts s.vars (s.scope (params.orElse p.params) p.indices) p.pairing
      equation p.bindings.1 with
  | error e =>
    rw [hparts] at hcompile
    exact effect_bind_of_error hcompile
  | ok parts =>
    rw [hparts] at hcompile
    rw [effect_bind_of_ok hcompile, Record.withConstraint_eq hr, effect_bind_of_ok (effect_lift _)]
    let t : EquationSystem := { s with
      model := some (m.place ⟨m.freshName (componentName before.length r), parts.1, parts.2⟩) }
    have ht : t.equations = before ++ r :: rest := hs
    exact effect_replaceEquation ht _

/-- A visit looks at the objective of a record first, and then at its equation. -/
theorem visitRecord_eq (params : Source) (position : Nat) (known : Option ObjectiveSpec)
    (r : Record) :
    visitRecord params position known r = lift (r.nextObjective known) >>= fun objective =>
      match r.pending? with
      | none => pure objective
      | some (p, equation) => do
          compileRecord params position r p equation
          return objective := by
  rw [visitRecord, Record.nextObjective, Record.pending?]
  cases r.structured? with
  | none => rfl
  | some p =>
    refine bind_congr fun objective => ?_
    rw [Option.bind_some]
    cases p.constraint with
    | some attachment => rfl
    | none =>
      cases p.equation with
      | none => rfl
      | some equation =>
        by_cases hcompilable : equation.isCompilable = true
        · simp only [if_pos hcompilable]
        · simp only [if_neg hcompilable]

/-- A visit that succeeds changes the record and the model; one that fails changes nothing. -/
theorem effect_visitRecord (hm : s.model = some m) (hs : s.equations = before ++ r :: rest) :
    (visitRecord params before.length known r).effect s =
      match s.visit params before.length m known r with
      | .ok (r', m', objective) =>
          ({ s with model := some m', equations := before ++ r' :: rest }, .ok objective)
      | .error e => (s, .error e) := by
  have hsame : ({ s with model := some m, equations := before ++ r :: rest } : EquationSystem) =
      s := by
    rw [← hm, ← hs]
  rw [visitRecord_eq, visit]
  cases r.nextObjective known with
  | error e => exact effect_bind_of_error (effect_lift _)
  | ok objective =>
    rw [effect_bind_of_ok (effect_lift _)]
    cases hpending : r.pending? with
    | none =>
      rw [update_of_pending?_eq_none hpending]
      exact congrArg (·, _) hsame.symm
    | some pending =>
      obtain ⟨p, equation⟩ := pending
      obtain ⟨hr, -⟩ := Record.pending?_eq_some.mp hpending
      have hcompile : (compileRecord params before.length r p equation).effect s = _ :=
        effect_compileRecord hm hs hr equation
      rw [update_of_pending? hpending]
      cases hparts : s.partsOf params p equation with
      | error e =>
        rw [hparts] at hcompile
        exact effect_bind_of_error hcompile
      | ok parts =>
        rw [hparts] at hcompile
        exact effect_bind_of_ok hcompile

/-! ### Visiting a list of records -/

variable {records : List Record} {objective : Option ObjectiveSpec} {m' : Model} {r' : Record}
  {e : Fault}

theorem pass_cons_of_ok (h : s.visit params position m known r = .ok (r', m', objective)) :
    s.pass params position m known (r :: rest) =
      let after := s.pass params (position + 1) m' objective rest
      { after with records := r' :: after.records } := by
  rw [pass, h]

theorem pass_cons_of_error (h : s.visit params position m known r = .error e) :
    s.pass params position m known (r :: rest) = ⟨r :: rest, m, .error e⟩ := by
  rw [pass, h]

/-- A pass that succeeds consists of a visit and a pass over the rest, which succeed. -/
theorem pass_cons_eq_ok {done : List Record}
    (h : s.pass params position m known (r :: rest) = ⟨done, m', .ok objective⟩) :
    ∃ r' m₁ known₁ done', s.visit params position m known r = .ok (r', m₁, known₁) ∧
      s.pass params (position + 1) m₁ known₁ rest = ⟨done', m', .ok objective⟩ ∧
      done = r' :: done' := by
  cases hvisit : s.visit params position m known r with
  | error e =>
    rw [pass_cons_of_error hvisit] at h
    simp at h
  | ok result =>
    obtain ⟨r', m₁, known₁⟩ := result
    rw [pass_cons_of_ok hvisit] at h
    obtain ⟨rfl, rfl, hobjective⟩ := Pass.mk.inj h
    exact ⟨r', m₁, known₁, _, rfl, Pass.ext rfl rfl hobjective, rfl⟩

/-- The pass looks at the variables and the registry of a system only. -/
theorem pass_with (s : EquationSystem) (model : Option Model) (equations : List Record) :
    EquationSystem.pass { s with model := model, equations := equations } = s.pass := by
  funext params position m known records
  induction records generalizing position m known with
  | nil => rfl
  | cons r rest ih =>
    have hvisit : EquationSystem.visit { s with model := model, equations := equations } params
        position m known r = s.visit params position m known r := rfl
    rw [pass, pass, hvisit]
    simp only [ih]

/-- Visiting a stretch of the records is the pass over them. -/
theorem effect_visitRecords (hs : s.equations = before ++ (records ++ rest))
    (hm : s.model = some m) :
    (visitRecords params before.length known records).effect s =
      let after := s.pass params before.length m known records
      ({ s with model := some after.model, equations := before ++ (after.records ++ rest) },
        after.objective) := by
  induction records generalizing s m known before with
  | nil =>
    show (s, Except.ok known) =
      ({ s with model := some m, equations := before ++ rest }, Except.ok known)
    rw [← hm, show before ++ rest = s.equations from hs.symm]
  | cons r tail ih =>
    have hvisit : (visitRecord params before.length known r).effect s = _ :=
      effect_visitRecord hm hs
    rw [visitRecords]
    cases hresult : s.visit params before.length m known r with
    | error e =>
      rw [hresult] at hvisit
      rw [effect_bind_of_error hvisit, pass_cons_of_error hresult]
      show _ = ({ s with model := some m, equations := before ++ (r :: tail ++ rest) }, _)
      rw [← hm, ← hs]
    | ok result =>
      obtain ⟨r', m', objective⟩ := result
      rw [hresult] at hvisit
      rw [effect_bind_of_ok hvisit, pass_cons_of_ok hresult]
      -- the records that were visited grow by one, and the rest starts one position later
      have hrest : (visitRecords params (before ++ [r']).length objective tail).effect
          { s with model := some m', equations := before ++ r' :: (tail ++ rest) } = _ :=
        ih (List.append_cons before r' (tail ++ rest)) rfl
      rw [pass_with, List.length_append] at hrest
      refine hrest.trans ?_
      simp only [List.append_assoc]
      rfl

/-- The system that a pass over its records leaves. -/
def withPass (s : EquationSystem) (after : Pass) : EquationSystem :=
  { s with model := some after.model, equations := after.records }

/-- Visiting the first records alone leaves what a pass leaves that ends after them. -/
theorem effect_visitRecords_before {after : Pass} {done : List Record} (hm : s.model = some m)
    (hs : s.equations = before ++ rest)
    (hbefore : s.pass params 0 m none before = ⟨done, after.model, .ok objective⟩)
    (hrecords : after.records = done ++ rest) :
    (visitRecords params 0 none before).effect s = (s.withPass after, .ok objective) := by
  have hvisits : (visitRecords params ([] : List Record).length none before).effect s = _ :=
    effect_visitRecords hs hm
  rw [List.length_nil, hbefore] at hvisits
  rw [hvisits, withPass, hrecords]
  rfl

/-- A visit that fails, in the system of the pass that it ends, leaves that system. -/
theorem effect_visitRecord_of_error {after : Pass} {done : List Record}
    (hrecords : after.records = done ++ r :: rest)
    (hvisit : s.visit params done.length after.model objective r = .error e) :
    (visitRecord params done.length objective r).effect (s.withPass after) =
      (s.withPass after, .error e) := by
  have heffect : (visitRecord params done.length objective r).effect (s.withPass after) = _ :=
    effect_visitRecord (m := after.model) rfl hrecords
  have hsame : (s.withPass after).visit params done.length after.model objective r =
      s.visit params done.length after.model objective r := rfl
  rw [heffect, hsame, hvisit]

/-- What follows a pass: if it is wanted and the pass found one, an objective is installed. -/
def finish (s : EquationSystem) (params : Source) (withObjective : Bool) (after : Pass) :
    EquationSystem × Except Fault Unit :=
  match after.objective with
  | .error e => (s.withPass after, .error e)
  | .ok none => (s.withPass after, .ok ())
  | .ok (some spec) =>
      if withObjective then (installObjective spec params none).effect (s.withPass after)
      else (s.withPass after, .ok ())

/-- Compiling the equations is the pass over all records, and what follows it. -/
theorem effect_compileEquations (hm : s.model = some m) (params : Source) (withObjective : Bool) :
    (compileEquations params withObjective).effect s =
      s.finish params withObjective (s.pass params 0 m none s.equations) := by
  have hrequire : s.requireModel = .ok m := requireModel_eq_ok.mpr hm
  have hvisit : (visitRecords params 0 none s.equations).effect s =
      (s.withPass (s.pass params 0 m none s.equations),
        (s.pass params 0 m none s.equations).objective) := by
    have hs : s.equations = [] ++ (s.equations ++ []) := by simp
    refine (effect_visitRecords hs hm).trans ?_
    simp only [List.append_nil]
    rfl
  rw [compileEquations, effect_bind_of_ok effect_current,
    effect_bind_of_ok ((effect_lift _).trans (by rw [hrequire])), effect_bind, hvisit]
  generalize s.pass params 0 m none s.equations = after
  rcases after with ⟨records, model, e | _ | spec⟩
  · rfl
  · rfl
  · cases withObjective <;> rfl

theorem effect_compileEquations_noModel (hm : s.model = none) (params : Source)
    (withObjective : Bool) :
    (compileEquations params withObjective).effect s = (s, .error .noModel) := by
  have hrequire : s.requireModel = .error .noModel := by
    rw [requireModel, hm]
  rw [compileEquations, effect_bind_of_ok effect_current]
  exact effect_bind_of_error ((effect_lift _).trans (by rw [hrequire]))

variable {after : Pass} {withObjective : Bool}

theorem finish_of_error (h : after.objective = .error e) :
    s.finish params withObjective after = (s.withPass after, .error e) := by
  rw [finish, h]

theorem finish_of_none (h : after.objective = .ok none) :
    s.finish params withObjective after = (s.withPass after, .ok ()) := by
  rw [finish, h]

theorem finish_false (h : after.objective = .ok objective) :
    s.finish params false after = (s.withPass after, .ok ()) := by
  rw [finish, h]
  cases objective <;> rfl

theorem finish_true {spec : ObjectiveSpec} (h : after.objective = .ok (some spec)) :
    s.finish params true after = (installObjective spec params none).effect (s.withPass after) := by
  rw [finish, h]
  rfl

/-- After a pass that succeeds, only installing the objective that it found can fail. -/
theorem finish_eq_error (h : after.objective = .ok objective) {t : EquationSystem}
    (ht : s.finish params withObjective after = (t, .error e)) :
    withObjective = true ∧ ∃ spec, objective = some spec ∧
      (installObjective spec params none).effect (s.withPass after) = (t, .error e) := by
  cases objective with
  | none =>
    rw [finish_of_none h] at ht
    simp at ht
  | some spec =>
    cases withObjective with
    | false =>
      rw [finish_false h] at ht
      simp at ht
    | true =>
      rw [finish_true h] at ht
      exact ⟨rfl, spec, rfl, ht⟩

/-- Compiling the equations succeeds only on a model, and if the pass and what follows it do. -/
theorem finish_of_compileEquations {t : EquationSystem}
    (h : (compileEquations params withObjective).effect s = (t, .ok ())) :
    ∃ m objective, s.model = some m ∧
      (s.pass params 0 m none s.equations).objective = .ok objective ∧
      s.finish params withObjective (s.pass params 0 m none s.equations) = (t, .ok ()) := by
  cases hm : s.model with
  | none =>
    rw [effect_compileEquations_noModel hm] at h
    cases h
  | some m =>
    rw [effect_compileEquations hm] at h
    cases hobjective : (s.pass params 0 m none s.equations).objective with
    | error e =>
      rw [finish_of_error hobjective] at h
      cases h
    | ok objective => exact ⟨m, objective, rfl, hobjective, h⟩

/-- What follows a pass leaves the records to it, and all components but the objective. -/
theorem system_of_finish (s : EquationSystem) (params : Source) (withObjective : Bool)
    (after : Pass) :
    ∃ m', (s.finish params withObjective after).1 =
        { s with model := some m', equations := after.records } ∧
      (m' = after.model ∨ ∃ o, m' = after.model.putObjective o) := by
  rcases hobjective : after.objective with e | _ | spec
  · rw [finish_of_error hobjective]
    exact ⟨after.model, rfl, .inl rfl⟩
  · rw [finish_of_none hobjective]
    exact ⟨after.model, rfl, .inl rfl⟩
  · cases withObjective with
    | false =>
      rw [finish_false hobjective]
      exact ⟨after.model, rfl, .inl rfl⟩
    | true =>
      rw [finish_true hobjective]
      have hm : (s.withPass after).model = some after.model := rfl
      exact model_of_installObjective hm spec params none

/-- A pass goes on where a pass over the first records ended. -/
theorem pass_append {done : List Record} (rest : List Record)
    (h : s.pass params position m known records = ⟨done, m', .ok objective⟩) :
    s.pass params position m known (records ++ rest) =
      let after := s.pass params (position + records.length) m' objective rest
      { after with records := done ++ after.records } := by
  induction records generalizing position m known done with
  | nil =>
    cases h
    rfl
  | cons r tail ih =>
    obtain ⟨r', m₁, known₁, done', hvisit, htail, rfl⟩ := pass_cons_eq_ok h
    rw [List.cons_append, pass_cons_of_ok hvisit, ih htail, List.length_cons, Nat.add_right_comm,
      Nat.add_assoc]
    rfl

/-- A pass succeeds on the records before the first one whose visit fails, and leaves that record
and all later ones alone. -/
theorem pass_split (s : EquationSystem) (params : Source) (position : Nat) (m : Model)
    (known : Option ObjectiveSpec) (records : List Record) :
    ∃ before rest done objective, records = before ++ rest ∧
      s.pass params position m known before =
        ⟨done, (s.pass params position m known records).model, .ok objective⟩ ∧
      (s.pass params position m known records).records = done ++ rest ∧
      (rest = [] ∧ (s.pass params position m known records).objective = .ok objective ∨
        ∃ r tail e, rest = r :: tail ∧
          s.visit params (position + before.length) (s.pass params position m known records).model
            objective r = .error e ∧
          (s.pass params position m known records).objective = .error e) := by
  induction records generalizing position m known with
  | nil => exact ⟨[], [], [], known, rfl, rfl, rfl, .inl ⟨rfl, rfl⟩⟩
  | cons r tail ih =>
    cases hvisit : s.visit params position m known r with
    | error e =>
      rw [pass_cons_of_error hvisit]
      exact ⟨[], r :: tail, [], known, rfl, rfl, rfl, .inr ⟨r, tail, e, rfl, hvisit, rfl⟩⟩
    | ok result =>
      obtain ⟨r', m₁, known₁⟩ := result
      obtain ⟨before, rest, done, objective, rfl, hbefore, hrecords, hend⟩ :=
        ih (position + 1) m₁ known₁
      rw [pass_cons_of_ok hvisit]
      refine ⟨r :: before, rest, r' :: done, objective, rfl, ?_, ?_, ?_⟩
      · rw [pass_cons_of_ok hvisit, hbefore]
      · show r' :: _ = _
        rw [hrecords]
        rfl
      · rw [List.length_cons, Nat.add_comm before.length 1, ← Nat.add_assoc]
        exact hend

end EquationSystem

end Equilibrium

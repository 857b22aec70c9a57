/-
Each record is compiled by itself.

What a pass makes of a record is read off that record: its sides compile with its own indices and
bindings, and nothing carries over from one record to the next but the names that are taken. A
record and the model are changed together or not at all:

* `EquationSystem.Compiles` - what compiling is to make of a record;
* `EquationSystem.compiles_of_pass` - a pass that succeeds makes that of each record, and adds the
  constraints to the model in their order;
* `EquationSystem.placed_of_pass`, `EquationSystem.get?_pass` - the constraints of the records are
  components of the model, and no component is lost;
* `EquationSystem.compileEquations_pointwise` - so compiling the equations of a system is a
  pointwise pass, and one that fails at a record is that pass over the records before it.
-/
import Equilibrium.Proofs.Pass

namespace Equilibrium

namespace EquationSystem

open Equilibrium.Action

variable {s : EquationSystem} {params : Source} {m m' : Model}
  {known objective : Option ObjectiveSpec} {records : List Record} {r r' : Record} {position : Nat}

/-- What compiling makes of a record. One that is not to be compiled is left alone. Any other one is
given a constraint and is otherwise left alone: its equation has two sides, which compile with its
own indices and bindings, and the residual of the constraint is their difference. -/
def Compiles (s : EquationSystem) (params : Source) (r r' : Record) : Prop :=
  match r.pending? with
  | none => r' = r
  | some (p, equation) => ∃ lhs rhs left right c, equation = .eq lhs rhs ∧
      let scope := s.scope (if params.isAbsent then p.params else params) p.indices
      lhs.compiled scope p.indexBindings = .ok left ∧
      rhs.compiled scope p.indexBindings = .ok right ∧
      left.sub right = .ok c.residual ∧ r' = r.attach c

/-- The constraints of the records that were to be compiled. -/
def newConstraints : List Record → List Record → List Constraint
  | r :: before, r' :: after =>
      (r.pending?.bind fun _ => r'.compiled?).toList ++ newConstraints before after
  | _, _ => []

/-- A visit that succeeds compiles the record, and places the constraint of that record only. -/
theorem compiles_of_update (h : s.update params position m r = .ok (r', m')) :
    s.Compiles params r r' ∧ m'.components.entries = m.components.entries ++
      ((r.pending?.bind fun _ => r'.compiled?).toList.map fun c => (c.name, .constraint c)) := by
  rw [Compiles]
  rcases update_cases h with
    ⟨hpending, rfl, rfl⟩ | ⟨p, equation, c, hpending, hr, hparts, hname, rfl, rfl⟩
  · rw [hpending]
    exact ⟨rfl, (List.append_nil _).symm⟩
  · rw [hpending, Option.bind_some, Record.compiled?_attach hr]
    constructor
    · rw [partsOf, p.bindings_fst] at hparts
      obtain ⟨lhs, rhs, left, right, rfl, hleft, hright, hresidual, -⟩ :=
        Equation.parts_eq_ok hparts
      exact ⟨lhs, rhs, left, right, c, rfl, hleft, hright, hresidual, rfl⟩
    · exact Table.entries_insert _ (hname ▸ m.contains_freshName _)

/-- A pass that succeeds compiles each record by itself, and places their constraints in order. -/
theorem compiles_of_pass {done : List Record}
    (h : s.pass params position m known records = ⟨done, m', .ok objective⟩) :
    List.Forall₂ (s.Compiles params) records done ∧
      m'.components.entries = m.components.entries ++
        ((newConstraints records done).map fun c => (c.name, .constraint c)) := by
  induction records generalizing position m known done with
  | nil =>
    cases h
    exact ⟨.nil, (List.append_nil _).symm⟩
  | cons r rest ih =>
    obtain ⟨r', m₁, known₁, done', hvisit, hpass, rfl⟩ := pass_cons_eq_ok h
    obtain ⟨hrest, hentries⟩ := ih hpass
    obtain ⟨hr, hplaced⟩ := compiles_of_update (visit_eq_ok.mp hvisit).2
    refine ⟨.cons hr hrest, ?_⟩
    rw [hentries, hplaced, newConstraints, List.map_append, List.append_assoc]

/-! ### The components of the model -/

/-- The constraint of a record is placed under a free name, which is not that of the objective. -/
theorem placed_of_update (h : s.update params position m r = .ok (r', m')) :
    (∀ name x, m.get? name = some x → m'.get? name = some x) ∧
      ∀ c ∈ r.pending?.bind fun _ => r'.compiled?,
        m'.get? c.name = some (.constraint c) ∧ c.name ≠ Model.objectiveName := by
  rcases update_cases h with
    ⟨hpending, rfl, rfl⟩ | ⟨p, equation, c, hpending, hr, hparts, hname, rfl, rfl⟩
  · exact ⟨fun _ _ hx => hx, by simp [hpending]⟩
  · have hfree : m.contains c.name = false := hname ▸ m.contains_freshName _
    have hadd := Model.add_constraint hfree
    constructor
    · exact fun name x hx => Model.get?_of_add hadd hx
    · intro c' hc'
      rw [hpending, Option.bind_some, Record.compiled?_attach hr, Option.mem_some_iff] at hc'
      subst hc'
      refine ⟨by rw [Model.get?_add hadd, if_pos rfl], ?_⟩
      obtain ⟨k, hk, -⟩ := m.freshName_least (componentName position r)
      rw [hname, hk]
      exact Model.candidate_ne_objectiveName _ position k

/-- A pass keeps every component of the model, whether it succeeds or fails. -/
theorem get?_pass {name : String} {x : Component} (hx : m.get? name = some x) :
    (s.pass params position m known records).model.get? name = some x := by
  induction records generalizing position m known with
  | nil => exact hx
  | cons r rest ih =>
    cases hvisit : s.visit params position m known r with
    | error e =>
      rw [pass_cons_of_error hvisit]
      exact hx
    | ok result =>
      obtain ⟨r', m₁, known₁⟩ := result
      rw [pass_cons_of_ok hvisit]
      exact ih ((placed_of_update (visit_eq_ok.mp hvisit).2).1 name x hx)

/-- A record that is still to be compiled carries no constraint. -/
theorem newConstraints_self (records : List Record) : newConstraints records records = [] := by
  induction records with
  | nil => rfl
  | cons r rest ih =>
    have hr : (r.pending?.bind fun _ => r.compiled?) = none := by
      cases hpending : r.pending? with
      | none => rfl
      | some pending =>
        obtain ⟨hr, hc, -⟩ := Record.pending?_eq_some.mp hpending
        rw [Option.bind_some, Record.compiled?, Record.structured?_eq_some.mpr hr,
          Option.bind_some, Payload.compiled?, hc]
    rw [newConstraints, hr, ih]
    rfl

/-- The constraints that a pass attached are components of the model, whether it succeeds or fails.
-/
theorem placed_of_pass {c : Constraint}
    (hc : c ∈ newConstraints records (s.pass params position m known records).records) :
    (s.pass params position m known records).model.get? c.name = some (.constraint c) ∧
      c.name ≠ Model.objectiveName := by
  induction records generalizing position m known with
  | nil => simp [newConstraints] at hc
  | cons r rest ih =>
    cases hvisit : s.visit params position m known r with
    | error e =>
      -- the records from here on are as they were, and no constraint is new
      rw [pass_cons_of_error hvisit, newConstraints_self] at hc
      simp at hc
    | ok result =>
      obtain ⟨r', m₁, known₁⟩ := result
      rw [pass_cons_of_ok hvisit] at hc ⊢
      rcases List.mem_append.mp hc with hhead | htail
      · obtain ⟨hget, hname⟩ := (placed_of_update (visit_eq_ok.mp hvisit).2).2 c
          (by simpa using hhead)
        exact ⟨get?_pass hget, hname⟩
      · exact ih htail

/-- What follows a pass leaves the records to it, and the constraints that it attached in the model.
-/
theorem placed_of_finish (s : EquationSystem) (params : Source) (m : Model) (withObjective : Bool) :
    let after := s.pass params 0 m none s.equations
    ∃ m', (s.finish params withObjective after).1 =
        { s with model := some m', equations := after.records } ∧
      ∀ c ∈ newConstraints s.equations after.records, m'.get? c.name = some (.constraint c) := by
  intro after
  obtain ⟨m', hm', hkept⟩ := s.system_of_finish params withObjective after
  refine ⟨m', hm', fun c hc => ?_⟩
  obtain ⟨hget, hname⟩ := placed_of_pass hc
  rcases hkept with rfl | ⟨o, rfl⟩
  · exact hget
  · rw [Model.get?_putObjective, if_neg hname]
    exact hget

/-- **Each record is compiled by itself.** If compiling the equations succeeds, each record that is
to be compiled has a constraint from its own sides, indices and bindings, every other record is as
it was, and the new constraints are components of the model.

If it fails at a record, the records before it are as visiting them leaves them, that record and all
later ones are as they were, and the model has gained the constraints of the records before it and
nothing else. If it fails otherwise, all records are compiled and it was the objective that could
not be installed. -/
theorem compileEquations_pointwise (s : EquationSystem) (m : Model) (hm : s.model = some m)
    (params : Source) (withObjective : Bool) :
    (∀ t, (compileEquations params withObjective).effect s = (t, .ok ()) →
      ∃ m' done, t = { s with model := some m', equations := done } ∧
        List.Forall₂ (s.Compiles params) s.equations done ∧
        ∀ c ∈ newConstraints s.equations done, m'.get? c.name = some (.constraint c)) ∧
    ∀ t e, (compileEquations params withObjective).effect s = (t, .error e) →
      (∃ before r rest done m' known, s.equations = before ++ r :: rest ∧
        t = { s with model := some m', equations := done ++ r :: rest } ∧
        List.Forall₂ (s.Compiles params) before done ∧
        m'.components.entries = m.components.entries ++
          ((newConstraints before done).map fun c => (c.name, .constraint c)) ∧
        (visitRecords params 0 none before).effect s = (t, .ok known) ∧
        (visitRecord params before.length known r).effect t = (t, .error e)) ∨
      withObjective = true ∧ ∃ u spec, (compileEquations params false).effect s = (u, .ok ()) ∧
        List.Forall₂ (s.Compiles params) s.equations u.equations ∧ t.equations = u.equations ∧
        (installObjective spec params none).effect u = (t, .error e) := by
  obtain ⟨m', hleaves, hplaced⟩ := s.placed_of_finish params m withObjective
  obtain ⟨before, rest, done, objective, hs, hbefore, hrecords, hend⟩ :=
    s.pass_split params 0 m none s.equations
  obtain ⟨hcompiles, hentries⟩ := compiles_of_pass hbefore
  have hvisits := effect_visitRecords_before hm hs hbefore hrecords
  rw [effect_compileEquations hm, effect_compileEquations hm]
  generalize s.pass params 0 m none s.equations = after at *
  rcases hend with ⟨rfl, hobjective⟩ | ⟨r, tail, e, rfl, hvisit, hobjective⟩
  · -- all visits succeed, and only installing the objective may fail
    rw [List.append_nil] at hs hrecords
    rw [← hs, ← hrecords] at hcompiles
    constructor
    · intro t ht
      rw [ht] at hleaves
      exact ⟨m', after.records, hleaves, hcompiles, hplaced⟩
    · intro t e ht
      obtain ⟨rfl, spec, rfl, hinstall⟩ := finish_eq_error hobjective ht
      rw [ht] at hleaves
      have hequations : t.equations = after.records := by
        rw [show t = _ from hleaves]
      exact .inr ⟨rfl, s.withPass after, spec, finish_false hobjective, hcompiles, hequations,
        hinstall⟩
  · -- the visit to `r` fails
    rw [finish_of_error hobjective]
    have hlength : done.length = before.length := hcompiles.length_eq.symm
    rw [Nat.zero_add, ← hlength] at hvisit
    have hfails := effect_visitRecord_of_error hrecords hvisit
    constructor
    · intro t ht
      simp at ht
    · intro t e' ht
      cases ht
      refine .inl ⟨before, r, tail, done, after.model, objective, hs, ?_, hcompiles, hentries,
        hvisits, hlength ▸ hfails⟩
      rw [withPass, hrecords]

/-- A record with an equation, and with nothing else. -/
def equationRecord (tag : String) (equation : Term) : Record :=
  ⟨tag, "toy", .structured {
    equation := some equation
    objective := none
    sense := .none
    indexNames := none
    indices := []
    params := .absent
    pairing := none
    constraint := none
    residual := none
    extra := Table.empty }⟩

/-- Four records, the third of which refers to a variable that is not registered: the pass fails
there, with one new component for the first record and none for the documentation after it. -/
theorem compileEquations_stops_at_missing_variable :
    let one : Term := .const (.number (.int 1))
    let s : EquationSystem := { new (some (.empty "model")) with
      vars := [⟨"x", some (.int 3), false, none, none⟩]
      registry := ⟨[("x", .ofVar 0)]⟩
      equations := [equationRecord "first" (.eq (.var "x" none) one),
        equationRecord "note" (.raw "x =e= 1"), equationRecord "ghost" (.eq (.var "y" none) one),
        equationRecord "last" (.eq (.var "x" none) one)] }
    s.model = some (.empty "model") ∧
      ∃ t, (compileEquations .absent true).effect s = (t, .error (.missingVariable "y")) ∧
        t.model.map (fun m => m.components.keys) = some ["toy_first_0"] ∧
        ∃ before r rest known, s.equations = before ++ r :: rest ∧
          t.equations.drop before.length = r :: rest ∧
          (visitRecords .absent 0 none before).effect s = (t, .ok known) := by
  intro one s
  have heffect : ((compileEquations .absent true).effect s).2 = .error (.missingVariable "y") := rfl
  have hwithout : ((compileEquations .absent false).effect s).2 =
      .error (.missingVariable "y") := rfl
  refine ⟨rfl, ((compileEquations .absent true).effect s).1, Prod.ext rfl heffect, rfl, ?_⟩
  rcases (compileEquations_pointwise s (.empty "model") rfl .absent true).2 _ _
      (Prod.ext rfl heffect) with
    ⟨before, r, rest, done, m', known, hs, ht, hcompiles, -, hvisits, -⟩ | ⟨-, u, spec, hu, -⟩
  · refine ⟨before, r, rest, known, hs, ?_, hvisits⟩
    have hequations : ((compileEquations .absent true).effect s).1.equations = done ++ r :: rest :=
      congrArg EquationSystem.equations ht
    rw [hequations, hcompiles.length_eq, List.drop_left]
  · rw [hu] at hwithout
    simp at hwithout

end EquationSystem

end Equilibrium

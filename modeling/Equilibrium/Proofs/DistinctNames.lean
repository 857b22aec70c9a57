/-
Names of components that are added one after the other.

A constraint is added under the first free candidate for its name. The search has no bound of its
own: it ends because a model has finitely many components. And since each name is free when it is
given away, no two components share one, whatever names are asked for:

* `Model.Searches` - the search as it goes, from one candidate to the next;
* `Model.searches_iff` - it ends, at the first free candidate and nowhere else;
* `Model.Gains` - a model that gains components under new names, and keeps what it had;
* `EquationSystem.gains_pass`, `Operation.gains_perform` - what a pass over records, and each
  operation that installs no objective, makes a model gain;
* `EquationSystem.gains_run` - and what a history of operations does;
* `component_names_are_fresh` - so the names of all components that are created differ.
-/
import Equilibrium.Proofs.Histories
import Equilibrium.Proofs.Increments

namespace Equilibrium

open Equilibrium.Action EquationSystem

namespace Model

variable {m m' m'' : Model} {base name : String} {gained more : List (String × Component)}

/-! ### The search -/

/-- The search for a free name, at some name and with the number for the next one: it stops at the
name if that is free, and otherwise goes on with the base and this number. -/
inductive Searches (m : Model) (base : String) : String → Nat → String → Prop
  | stop {name : String} {number : Nat} : m.contains name = false →
      Searches m base name number name
  | next {name found : String} {number : Nat} : m.contains name = true →
      Searches m base (base ++ "_" ++ toString number) (number + 1) found →
      Searches m base name number found

/-- The search ends at one name at most. -/
theorem Searches.unique {number : Nat} {found other : String}
    (h : m.Searches base name number found) (h' : m.Searches base name number other) :
    found = other := by
  induction h with
  | stop hfree =>
    cases h' with
    | stop => rfl
    | next htaken _ => simp [hfree] at htaken
  | next htaken _ ih =>
    cases h' with
    | stop hfree => simp [htaken] at hfree
    | next _ hrest => exact ih hrest

/-- From a candidate the search goes on to the next free one. -/
theorem searches_candidate (rounds : Nat) {j : Nat}
    (hfree : m.contains (candidate base (j + rounds)) = false)
    (htaken : ∀ i, j ≤ i → i < j + rounds → m.contains (candidate base i) = true) :
    m.Searches base (candidate base j) (j + 2) (candidate base (j + rounds)) := by
  induction rounds generalizing j with
  | zero => exact .stop hfree
  | succ rounds ih =>
    have hshift : j + (rounds + 1) = (j + 1) + rounds := by omega
    rw [hshift] at hfree htaken ⊢
    refine .next (htaken j (Nat.le_refl j) (by omega)) ?_
    exact ih hfree fun i hi => htaken i (by omega)

/-- **The search ends**, at the first free candidate. -/
theorem searches_iff : m.Searches base base 2 name ↔ name = m.freshName base := by
  obtain ⟨k, hk, hfree, htaken⟩ := m.freshName_least base
  have hends : m.Searches base base 2 (m.freshName base) := by
    rw [hk, ← Nat.zero_add k]
    rw [← Nat.zero_add k] at hfree htaken
    exact searches_candidate k hfree fun i _ => htaken i
  constructor
  · intro h
    exact h.unique hends
  · rintro rfl
    exact hends

theorem freshName_of_free (h : m.contains base = false) : m.freshName base = base :=
  (searches_iff.mp (.stop h)).symm

/-- If the base is taken, it is given the least number from two on that makes it free. -/
theorem freshName_of_taken (h : m.contains base = true) :
    ∃ number ≥ 2, m.freshName base = base ++ "_" ++ toString number ∧
      m.contains (base ++ "_" ++ toString number) = false ∧
      ∀ n, 2 ≤ n → n < number → m.contains (base ++ "_" ++ toString n) = true := by
  obtain ⟨k, hk, hfree, htaken⟩ := m.freshName_least base
  cases k with
  | zero =>
    have hbase : m.contains base = false := hfree
    simp [h] at hbase
  | succ k =>
    refine ⟨k + 2, by omega, hk, hfree, fun n hn hlt => ?_⟩
    obtain ⟨i, rfl⟩ := Nat.exists_eq_add_of_le' hn
    exact htaken (i + 1) (by omega)

/-! ### Gained components -/

/-- `m'` is `m` with more components at its end, under names that differ from each other and are
free in `m`. -/
structure Gains (m : Model) (gained : List (String × Component)) (m' : Model) : Prop where
  model : m' = m.append gained
  nodup : (gained.map Prod.fst).Nodup
  free : ∀ name ∈ gained.map Prod.fst, m.contains name = false

theorem Gains.refl (m : Model) : m.Gains [] m :=
  ⟨m.append_nil.symm, List.nodup_nil, by simp⟩

theorem Gains.trans (h : m.Gains gained m') (h' : m'.Gains more m'') :
    m.Gains (gained ++ more) m'' := by
  -- what comes later is free in the model that has gained the first components already
  have hlater : ∀ name ∈ more.map Prod.fst,
      m.contains name = false ∧ name ∉ gained.map Prod.fst := by
    intro name hname
    have hfree := h'.free name hname
    rw [h.model] at hfree
    constructor
    · by_contra htaken
      rw [(contains_append gained name).mpr (.inl (by simpa using htaken))] at hfree
      cases hfree
    · intro hmem
      rw [(contains_append gained name).mpr (.inr hmem)] at hfree
      cases hfree
  refine ⟨?_, ?_, fun name hname => ?_⟩
  · rw [h'.model, h.model, append_append]
  · rw [List.map_append]
    refine List.nodup_append.mpr ⟨h.nodup, h'.nodup, ?_⟩
    rintro name hname _ hmore rfl
    exact (hlater name hmore).2 hname
  · rw [List.map_append] at hname
    rcases List.mem_append.mp hname with hfirst | hmore
    · exact h.free name hfirst
    · exact (hlater name hmore).1

theorem Gains.insert (h : m.contains name = false) (c : Component) :
    m.Gains [(name, c)] { m with components := m.components.insert name c } := by
  refine ⟨insert_eq_append c h, List.nodup_singleton _, fun other hother => ?_⟩
  obtain rfl : other = name := by simpa using hother
  exact h

end Model

/-! ### Passes and operations -/

/-- A constraint under its own name. -/
def Constraint.entry (c : Constraint) : String × Component := (c.name, .constraint c)

namespace EquationSystem

variable {s t u : EquationSystem} {m : Model} {params : Source} {position : Nat}
  {known : Option ObjectiveSpec} {records : List Record}

/-- A visit that succeeds makes the model gain the constraint of the record, if there is one. -/
theorem gains_update {r r' : Record} {m' : Model}
    (h : s.update params position m r = .ok (r', m')) :
    m.Gains ((r.pending?.bind fun _ => r'.compiled?).toList.map Constraint.entry) m' := by
  rcases update_cases h with
    ⟨hpending, rfl, rfl⟩ | ⟨p, equation, c, hpending, hr, -, hname, rfl, rfl⟩
  · rw [hpending]
    exact Model.Gains.refl m'
  · have hfree : m.contains c.name = false := by
      rw [hname]
      exact m.contains_freshName _
    rw [hpending, Option.bind_some, Record.compiled?_attach hr]
    exact Model.Gains.insert hfree _

/-- A pass makes the model gain the constraints that it attaches to the records, whether it succeeds
or fails. -/
theorem gains_pass (s : EquationSystem) (params : Source) (position : Nat) (m : Model)
    (known : Option ObjectiveSpec) (records : List Record) :
    m.Gains
      ((newConstraints records (s.pass params position m known records).records).map
        Constraint.entry)
      (s.pass params position m known records).model := by
  induction records generalizing position m known with
  | nil => exact Model.Gains.refl m
  | cons r rest ih =>
    cases hvisit : s.visit params position m known r with
    | error e =>
      rw [pass_cons_of_error hvisit, newConstraints_self]
      exact Model.Gains.refl m
    | ok result =>
      obtain ⟨r', m₁, known₁⟩ := result
      have hfirst := gains_update (visit_eq_ok.mp hvisit).2
      rw [pass_cons_of_ok hvisit, newConstraints, List.map_append]
      exact hfirst.trans (ih (position + 1) m₁ known₁)

/-- If the model of `s` is one, then the model of `t` has gained the components, in this order and
each under its own name. -/
def Gains (s : EquationSystem) (created : List Component) (t : EquationSystem) : Prop :=
  ∀ m, s.model = some m → ∃ gained m', t.model = some m' ∧ m.Gains gained m' ∧
    gained.map Prod.snd = created ∧ ∀ e ∈ gained, t.ownName e.2 = some e.1

theorem Keeps.ownName (h : s.Keeps t) {x : Component} {name : String}
    (hname : s.ownName x = some name) : t.ownName x = some name := by
  cases x with
  | ofVar id => exact h.names id name hname
  | constraint c => exact hname
  | objective o => exact hname

theorem Gains.of_model (h : t.model = s.model) : s.Gains [] t := by
  intro m hm
  exact ⟨[], m, h.trans hm, Model.Gains.refl m, rfl, by simp⟩

theorem Gains.trans {created later : List Component} (h : s.Gains created t)
    (h' : t.Gains later u) (hkeeps : t.Keeps u) : s.Gains (created ++ later) u := by
  intro m hm
  obtain ⟨gained, m', hm', hgains, hcreated, hown⟩ := h m hm
  obtain ⟨more, m'', hm'', hgains', hlater, hown'⟩ := h' m' hm'
  refine ⟨gained ++ more, m'', hm'', hgains.trans hgains', ?_, fun e he => ?_⟩
  · rw [List.map_append, hcreated, hlater]
  · rcases List.mem_append.mp he with hfirst | hmore
    · exact hkeeps.ownName (hown e hfirst)
    · exact hown' e hmore

/-- Constraints have their own names in every system. -/
theorem Gains.of_entries {cs : List Constraint} {m' : Model} (hm : s.model = some m)
    (hm' : t.model = some m') (h : m.Gains (cs.map Constraint.entry) m') :
    s.Gains (cs.map .constraint) t := by
  intro k hk
  obtain rfl := Option.some.inj (hm.symm.trans hk)
  refine ⟨_, m', hm', h, ?_, fun e he => ?_⟩
  · rw [List.map_map]
    rfl
  · obtain ⟨c, -, rfl⟩ := List.mem_map.mp he
    rfl

end EquationSystem

namespace Operation

variable {s : EquationSystem}

/-- The operation installs no objective. -/
def InstallsNone : Operation → Prop
  | compileEquations _ withObjective => withObjective = false
  | installObjective .. => False
  | _ => True

theorem gains_addVariable (name : String) (lower upper start fixed : Option Number) :
    s.Gains (created s (.addVariable name lower upper start fixed))
      (perform s (.addVariable name lower upper start fixed)) := by
  intro m hm
  rw [created, perform, effect_addVariable hm]
  by_cases htaken : m.contains name = true
  · rw [if_pos htaken]
    exact EquationSystem.Gains.of_model rfl m hm
  · rw [if_neg htaken]
    refine ⟨[(name, .ofVar s.vars.length)], _, rfl, Model.Gains.insert (by simpa using htaken) _,
      rfl, fun e he => ?_⟩
    obtain rfl : e = (name, .ofVar s.vars.length) := by simpa using he
    show Option.map _ (s.vars ++ [_])[s.vars.length]? = some name
    rw [List.getElem?_concat_length, Option.map_some, Variable.name_added]

theorem gains_compileEquation (equation : Term) (params : Source) (indices : List String)
    (env : Bindings) (pairing : Option Term) (name : String) :
    s.Gains (created s (.compileEquation equation params indices env pairing name))
      (perform s (.compileEquation equation params indices env pairing name)) := by
  intro m hm
  rw [created, perform, effect_compileEquation hm]
  cases Equation.parts s.vars (s.scope params indices) pairing equation env with
  | error e => exact EquationSystem.Gains.of_model rfl m hm
  | ok parts =>
    let c : Constraint := ⟨m.freshName name, parts.1, parts.2⟩
    have hgains : m.Gains ([c].map Constraint.entry) (m.place c) :=
      Model.Gains.insert (m.contains_freshName name) _
    exact Gains.of_entries hm rfl hgains m hm

theorem gains_compileEquations (params : Source) :
    s.Gains (created s (.compileEquations params false))
      (perform s (.compileEquations params false)) := by
  intro m hm
  have hpass := s.gains_pass params 0 m none s.equations
  have hleaves : ∀ after, (s.finish params false after).1 = s.withPass after := by
    intro after
    cases hobjective : after.objective with
    | error e => rw [finish_of_error hobjective]
    | ok objective => rw [finish_false hobjective]
  rw [created, perform, effect_compileEquations hm, hleaves]
  exact Gains.of_entries hm rfl hpass m hm

/-- An operation that installs no objective makes the model gain what it creates. -/
theorem gains_perform {op : Operation} (hop : op.InstallsNone) (s : EquationSystem) :
    s.Gains (op.created s) (op.perform s) := by
  cases op with
  | addVariable name lower upper start fixed => exact gains_addVariable name lower upper start fixed
  | registerVariable name h =>
    exact EquationSystem.Gains.of_model (sharesModel_registerVariable name h s).model
  | registerEquation tag block content =>
    exact EquationSystem.Gains.of_model (sharesModel_registerEquation tag block content s).model
  | replaceEquation position r =>
    exact EquationSystem.Gains.of_model (sharesModel_replaceEquation position r s).model
  | compileEquation equation params indices env pairing name =>
    exact gains_compileEquation equation params indices env pairing name
  | compileEquations params withObjective =>
    cases hop
    exact gains_compileEquations params
  | installObjective spec params asked => cases hop
  | solve request => exact EquationSystem.Gains.of_model (sharesModel_solve request s).model
  | warmStart state => exact EquationSystem.Gains.of_model (sharesModel_warmStart state s).model

end Operation

/-- And so does a history of such operations. -/
theorem EquationSystem.gains_run {ops : List Operation} (hops : ∀ op ∈ ops, op.InstallsNone)
    (s : EquationSystem) : s.Gains (createdIn s ops) (run s ops) := by
  induction ops generalizing s with
  | nil => exact Gains.of_model rfl
  | cons op rest ih =>
    have hfirst := Operation.gains_perform (hops op List.mem_cons_self) s
    have hrest := ih (fun later hlater => hops later (List.mem_cons_of_mem op hlater))
      (op.perform s)
    exact hfirst.trans hrest (keeps_run (op.perform s) rest)

/-- The constraint of an equation is added at the end of the model, under the name that the search
gives. -/
theorem EquationSystem.added_of_compileEquation {s t : EquationSystem} {m : Model}
    {equation : Term} {params : Source} {indices : List String} {env : Bindings}
    {pairing : Option Term} {name : String} {c : Constraint} (hm : s.model = some m)
    (h : (compileEquation equation params indices env pairing name).effect s = (t, .ok c)) :
    c.name = m.freshName name ∧ t = { s with model := some (m.append [c.entry]) } := by
  rw [effect_compileEquation hm] at h
  cases hparts : Equation.parts s.vars (s.scope params indices) pairing equation env with
  | error e =>
    rw [hparts] at h
    cases h
  | ok parts =>
    rw [hparts] at h
    cases h
    refine ⟨rfl, ?_⟩
    rw [Model.place, Model.insert_eq_append _ (m.contains_freshName name)]
    rfl

/-! ### Main theorem -/

/-- **Component names are fresh, and the least ones.** The search for the name of a component ends,
with the base if this is free, and else with the base and the least number from two on that makes it
free. A constraint is added under this name, after all components that are there.

So in every history that installs no objective, of additions and compilations in any order and under
any names, the model keeps all its components and gains the variables and constraints that are
created, each under its own name, and these names differ from each other and from all that were
taken before. -/
theorem component_names_are_fresh :
    (∀ (m : Model) (base : String),
      (∀ name, m.Searches base base 2 name ↔ name = m.freshName base) ∧
      (m.contains base = false → m.freshName base = base) ∧
      (m.contains base = true → ∃ number ≥ 2, m.freshName base = base ++ "_" ++ toString number ∧
        m.contains (base ++ "_" ++ toString number) = false ∧
        ∀ n, 2 ≤ n → n < number → m.contains (base ++ "_" ++ toString n) = true)) ∧
    (∀ (s t : EquationSystem) (m : Model) equation params indices env pairing name c,
      s.model = some m →
      (compileEquation equation params indices env pairing name).effect s = (t, .ok c) →
      c.name = m.freshName name ∧ t = { s with model := some (m.append [c.entry]) }) ∧
    ∀ (s : EquationSystem) (m : Model) (ops : List Operation), s.model = some m →
      (∀ op ∈ ops, op.InstallsNone) →
      ∃ gained, (run s ops).model = some (m.append gained) ∧
        gained.map Prod.snd = createdIn s ops ∧
        (∀ e ∈ gained, (run s ops).ownName e.2 = some e.1) ∧
        (gained.map Prod.fst).Nodup ∧ ∀ name ∈ gained.map Prod.fst, m.contains name = false := by
  refine ⟨fun m base => ⟨fun name => Model.searches_iff, Model.freshName_of_free,
    Model.freshName_of_taken⟩, ?_, ?_⟩
  · intro s t m equation params indices env pairing name c hm h
    exact added_of_compileEquation hm h
  · intro s m ops hm hops
    obtain ⟨gained, m', hm', hgains, hcreated, hown⟩ := gains_run hops s m hm
    rw [hgains.model] at hm'
    exact ⟨gained, hm', hcreated, hown, hgains.nodup, hgains.free⟩

/-- Two equations of one name and one record, in a model whose variables have names like the next
candidates. -/
theorem component_names_are_fresh_of_imitations :
    let s := run (new (some (.empty "model"))) [.addVariable "x" none none none none,
      .addVariable "eq_2" none none none none, .addVariable "toy_balance_0" none none none none]
    let equation : Term := .eq (.var "x" none) (.const (.number (.int 1)))
    let ops : List Operation := [.compileEquation equation .absent [] Table.empty none "eq",
      .compileEquation equation .absent [] Table.empty none "eq",
      .registerEquation "balance" "toy" (equationRecord "balance" equation).content,
      .compileEquations .absent false]
    ∃ m gained, s.model = some m ∧ (∀ op ∈ ops, op.InstallsNone) ∧
      (run s ops).model = some (m.append gained) ∧
      gained.map Prod.fst = ["eq", "eq_3", "toy_balance_0_2"] ∧ (gained.map Prod.fst).Nodup := by
  intro s equation ops
  have hkeys : (run s ops).model.map (fun m => m.components.keys) =
      some ["x", "eq_2", "toy_balance_0", "eq", "eq_3", "toy_balance_0_2"] := rfl
  have hops : ∀ op ∈ ops, op.InstallsNone := by
    simp [ops, Operation.InstallsNone]
  obtain ⟨m, hm, hbefore⟩ : ∃ m, s.model = some m ∧
      m.components.keys = ["x", "eq_2", "toy_balance_0"] := ⟨_, rfl, rfl⟩
  obtain ⟨gained, hafter, -, -, hnodup, -⟩ := component_names_are_fresh.2.2 s m ops hm hops
  refine ⟨m, gained, hm, hops, hafter, ?_, hnodup⟩
  rw [hafter] at hkeys
  have happend : m.components.keys ++ gained.map Prod.fst =
      ["x", "eq_2", "toy_balance_0"] ++ ["eq", "eq_3", "toy_balance_0_2"] :=
    List.map_append.symm.trans (Option.some.inj hkeys)
  rw [hbefore] at happend
  exact List.append_cancel_left happend

end Equilibrium

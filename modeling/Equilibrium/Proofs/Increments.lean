/-
Compiling in several steps.

The equations of a system may be compiled, successfully or not, the system extended by variables and
records, and the equations compiled again. The records that are compiled by then are left alone, so
this comes to the same as extending the system first and compiling its equations once:

* `extend` - an extension by variables, registered names and equation records;
* `extend_parallel` - an extension does the same to systems that differ in their models and their
  records only, as long as none of its names was taken in one of them;
* `EquationSystem.finish_congr` - the objective is installed in the same way after passes that left
  the same records;
* `EquationSystem.finish_resumed` - a pass that starts from what an earlier one left ends as a pass
  over all records does;
* `EquationSystem.compileEquations_incremental` - so compiling in two steps is compiling in one.
-/
import Equilibrium.Proofs.ResumedPass

namespace Equilibrium

open Equilibrium.Action EquationSystem

/-! ### Extensions -/

/-- What a system may be extended by. -/
inductive Addition
  | newVariable (name : String) (lower upper start fixed : Option Number)
  | newName (name : String) (h : Handle)
  | newRecord (tag block : String) (content : Content)

namespace Addition

/-- The name that is registered, if there is one. -/
def name? : Addition → Option String
  | .newVariable name .. => some name
  | .newName name _ => some name
  | .newRecord .. => none

def perform : Addition → Action Unit
  | .newVariable name lower upper start fixed => do
      let _ ← addVariable name lower upper start fixed
      return ()
  | .newName name h => do
      let _ ← registerVariable name h
      return ()
  | .newRecord tag block content => do
      let _ ← registerEquation tag block content
      return ()

end Addition

/-- Adds one thing after the other, up to the first one that is refused. -/
def extend : List Addition → Action Unit
  | [] => pure ()
  | a :: rest => do
      a.perform
      extend rest

/-! ### Systems that differ in their models and records -/

/-- The model with more components at its end. -/
def Model.append (m : Model) (gained : List (String × Component)) : Model :=
  { m with components := ⟨m.components.entries ++ gained⟩ }

/-- The same variables and registered names, on another model and with other records. -/
def EquationSystem.onModel (s : EquationSystem) (m : Model) (records : List Record) :
    EquationSystem :=
  { s with model := some m, equations := records }

variable {s : EquationSystem} {m n : Model} {records : List Record} {name : String}

namespace Model

@[simp] theorem append_nil (m : Model) : m.append [] = m := by
  rw [append, List.append_nil]

theorem append_append (m : Model) (gained more : List (String × Component)) :
    (m.append gained).append more = m.append (gained ++ more) := by
  rw [append, append, append, List.append_assoc]

theorem contains_append (gained : List (String × Component)) (name : String) :
    (m.append gained).contains name = true ↔
      m.contains name = true ∨ name ∈ gained.map Prod.fst := by
  have hkeys : (m.append gained).components.keys = m.components.keys ++ gained.map Prod.fst :=
    List.map_append
  rw [contains, contains, Table.contains_iff_mem_keys, Table.contains_iff_mem_keys, hkeys,
    List.mem_append]

theorem contains_append_congr (gained : List (String × Component))
    (h : n.contains name = m.contains name) :
    (n.append gained).contains name = (m.append gained).contains name := by
  rw [Bool.eq_iff_iff, contains_append, contains_append, h]

theorem get?_append_congr (gained : List (String × Component)) (h : n.get? name = m.get? name) :
    (n.append gained).get? name = (m.append gained).get? name := by
  have hseek : ∀ entries : List (String × Component), Table.seek name (entries ++ gained) =
      (Table.seek name entries).or (Table.seek name gained) := by
    intro entries
    induction entries with
    | nil => rfl
    | cons entry rest ih =>
      rw [List.cons_append, Table.seek, Table.seek, ih]
      split <;> rfl
  show Table.seek name (n.components.entries ++ gained) =
    Table.seek name (m.components.entries ++ gained)
  rw [hseek, hseek]
  exact congrArg (Option.or · _) h

theorem insert_eq_append (c : Component) (hfree : m.contains name = false) :
    { m with components := m.components.insert name c } = m.append [(name, c)] := by
  have hentries : m.components.insert name c = ⟨m.components.entries ++ [(name, c)]⟩ :=
    congrArg Table.mk (Table.entries_insert c hfree)
  rw [append, hentries]

end Model

@[simp] theorem EquationSystem.onModel_equations : (s.onModel m records).equations = records := rfl

theorem EquationSystem.onModel_self (hm : s.model = some m) : s.onModel m s.equations = s := by
  rw [onModel, ← hm]

/-- An addition does the same to both systems: if it is a variable whose name is free in both, their
models gain it, and if it is a record, they gain the record. -/
theorem Addition.perform_parallel (a : Addition) (s : EquationSystem) (m n : Model)
    (before records : List Record)
    (hsame : ∀ name ∈ a.name?, n.contains name = m.contains name) :
    ∃ (t : EquationSystem) (result : Except Fault Unit) (gained : List (String × Component))
        (added : List Record),
      a.perform.effect (s.onModel m before) =
        (t.onModel (m.append gained) (before ++ added), result) ∧
      a.perform.effect (s.onModel n records) =
        (t.onModel (n.append gained) (records ++ added), result) ∧
      ∀ entry ∈ gained, entry.1 ∈ a.name? := by
  cases a with
  | newVariable name lower upper start fixed =>
    have hname : n.contains name = m.contains name := hsame name rfl
    have hadd : ∀ (k : Model) (rs : List Record),
        (addVariable name lower upper start fixed).effect (s.onModel k rs) =
          if k.contains name then (s.onModel k rs, .error (.duplicateComponent name))
          else ((s.onModel k rs).withVariable k name lower upper start fixed,
            .ok (.ofVar s.vars.length)) :=
      fun k rs => effect_addVariable (s := s.onModel k rs) rfl name lower upper start fixed
    cases htaken : m.contains name with
    | true =>
      refine ⟨s, .error (.duplicateComponent name), [], [], ?_, ?_, by simp⟩
      · rw [Model.append_nil, List.append_nil]
        exact effect_bind_of_error (by rw [hadd, if_pos htaken])
      · rw [Model.append_nil, List.append_nil]
        exact effect_bind_of_error (by rw [hadd, if_pos (hname.trans htaken)])
    | false =>
      have hgained : ∀ (k : Model) (rs : List Record), k.contains name = false →
          (Addition.newVariable name lower upper start fixed).perform.effect (s.onModel k rs) =
            ((s.withVariable m name lower upper start fixed).onModel
              (k.append [(name, .ofVar s.vars.length)]) (rs ++ []), .ok ()) := by
        intro k rs hfree
        have happly := hadd k rs
        rw [if_neg (by simp [hfree])] at happly
        rw [← Model.insert_eq_append _ hfree, List.append_nil]
        exact effect_bind_of_ok happly
      exact ⟨s.withVariable m name lower upper start fixed, .ok (),
        [(name, .ofVar s.vars.length)], [], hgained m before htaken,
        hgained n records (hname.trans htaken), by simp [name?]⟩
  | newName name h =>
    refine ⟨{ s with registry := s.registry.insert name h }, .ok (), [], [], ?_, ?_, by simp⟩
    · rw [Model.append_nil, List.append_nil]
      rfl
    · rw [Model.append_nil, List.append_nil]
      rfl
  | newRecord tag block content =>
    refine ⟨s, .ok (), [], [⟨tag, block, content⟩], ?_, ?_, by simp⟩
    · rw [Model.append_nil]
      rfl
    · rw [Model.append_nil]
      rfl

/-- So does an extension, up to the same addition if one is refused. -/
theorem extend_parallel (additions : List Addition) (s : EquationSystem) (m n : Model)
    (before records : List Record)
    (hsame : ∀ a ∈ additions, ∀ name ∈ a.name?, n.contains name = m.contains name) :
    ∃ (t : EquationSystem) (result : Except Fault Unit) (gained : List (String × Component))
        (added : List Record),
      (extend additions).effect (s.onModel m before) =
        (t.onModel (m.append gained) (before ++ added), result) ∧
      (extend additions).effect (s.onModel n records) =
        (t.onModel (n.append gained) (records ++ added), result) ∧
      ∀ entry ∈ gained, ∃ a ∈ additions, entry.1 ∈ a.name? := by
  induction additions generalizing s m n before records with
  | nil =>
    refine ⟨s, .ok (), [], [], ?_, ?_, by simp⟩
    · rw [Model.append_nil, List.append_nil]
      rfl
    · rw [Model.append_nil, List.append_nil]
      rfl
  | cons a rest ih =>
    obtain ⟨t, result, gained, added, hm, hn, hgained⟩ :=
      a.perform_parallel s m n before records (hsame a List.mem_cons_self)
    have hmem : ∀ entry ∈ gained, ∃ b ∈ a :: rest, entry.1 ∈ b.name? :=
      fun entry hentry => ⟨a, List.mem_cons_self, hgained entry hentry⟩
    rw [extend]
    cases result with
    | error e =>
      exact ⟨t, .error e, gained, added, effect_bind_of_error hm, effect_bind_of_error hn, hmem⟩
    | ok u =>
      have hsame' : ∀ b ∈ rest, ∀ name ∈ b.name?,
          (n.append gained).contains name = (m.append gained).contains name :=
        fun b hb name hname => Model.contains_append_congr gained
          (hsame b (List.mem_cons_of_mem a hb) name hname)
      obtain ⟨t', result, gained', added', hm', hn', hgained'⟩ :=
        ih t (m.append gained) (n.append gained) (before ++ added) (records ++ added) hsame'
      rw [Model.append_append, List.append_assoc] at hm' hn'
      refine ⟨t', result, gained ++ gained', added ++ added', (effect_bind_of_ok hm).trans hm',
        (effect_bind_of_ok hn).trans hn', fun entry hentry => ?_⟩
      rcases List.mem_append.mp hentry with hfirst | hsecond
      · exact hmem entry hfirst
      · obtain ⟨b, hb, hname⟩ := hgained' entry hsecond
        exact ⟨b, List.mem_cons_of_mem a hb, hname⟩

/-- A name that is not registered may be given any meaning in the larger table. -/
theorem Table.within_insert {α : Type} {t larger : Table α} (h : t.Within larger)
    (hnew : t.contains name = false) (a : α) : t.Within (larger.insert name a) := by
  intro other b hb
  have hother : other ≠ name := by
    rintro rfl
    rw [contains, hb] at hnew
    simp at hnew
  rw [get?_insert_of_ne _ _ hother]
  exact h other b hb

theorem Addition.grows_perform (a : Addition) {u : EquationSystem} (hgrows : s.Grows u)
    (hnew : ∀ name ∈ a.name?, s.registry.contains name = false) :
    s.Grows (a.perform.effect u).1 := by
  cases a with
  | newVariable name lower upper start fixed =>
    have hname : s.registry.contains name = false := hnew name rfl
    have hfst : ((newVariable name lower upper start fixed).perform.effect u).1 =
        ((addVariable name lower upper start fixed).effect u).1 := by
      rw [perform, effect_bind]
      rcases (addVariable name lower upper start fixed).effect u with ⟨t, e | h⟩ <;> rfl
    rw [hfst]
    cases hm : u.model with
    | none =>
      rw [effect_addVariable_noModel hm]
      exact hgrows
    | some m =>
      rw [effect_addVariable hm]
      split
      · exact hgrows
      · refine ⟨Table.within_insert hgrows.registry hname _, fun id v hv => ?_⟩
        have hold : u.vars[id]? = some v := hgrows.vars id v hv
        show (u.vars ++ [_])[id]? = some v
        rw [List.getElem?_append_left (List.getElem?_eq_some_iff.mp hold).1, hold]
  | newName name h => exact ⟨Table.within_insert hgrows.registry (hnew name rfl) h, hgrows.vars⟩
  | newRecord tag block content => exact ⟨hgrows.registry, hgrows.vars⟩

/-- An extension under new names lets a system grow, also one that is refused. -/
theorem grows_extend (additions : List Addition) {u : EquationSystem} (hgrows : s.Grows u)
    (hnew : ∀ a ∈ additions, ∀ name ∈ a.name?, s.registry.contains name = false) :
    s.Grows ((extend additions).effect u).1 := by
  induction additions generalizing u with
  | nil => exact hgrows
  | cons a rest ih =>
    have hfirst : s.Grows (a.perform.effect u).1 :=
      a.grows_perform hgrows (hnew a List.mem_cons_self)
    rw [extend, effect_bind]
    rcases hperform : a.perform.effect u with ⟨t, e | x⟩
    · rw [hperform] at hfirst
      exact hfirst
    · rw [hperform] at hfirst
      exact ih hfirst fun b hb => hnew b (List.mem_cons_of_mem a hb)

/-! ### Installing the objective -/

/-- What is installed, and whether it is refused, does not depend on the model. -/
theorem Model.installObjective_congr (m n : Model) (sense : Sense) (body : Expression) :
    (n.installObjective sense body).2 = (m.installObjective sense body).2 ∧
      (n.installObjective sense body).1.get? objectiveName =
        (m.installObjective sense body).1.get? objectiveName := by
  rw [installObjective, installObjective]
  cases Objective.refusal? body with
  | some e => exact ⟨rfl, (putObjective_get? n _).trans (putObjective_get? m _).symm⟩
  | none => exact ⟨rfl, (putObjective_get? n _).trans (putObjective_get? m _).symm⟩

namespace EquationSystem

variable {t : EquationSystem} {params : Source} {withObjective : Bool} {a b after : Pass}

theorem finish_onModel (m : Model) (records : List Record) (params : Source) (withObjective : Bool)
    (after : Pass) :
    (t.onModel m records).finish params withObjective after = t.finish params withObjective after :=
  rfl

/-- If no objective is to be installed, the system is left as the pass left it. -/
theorem system_of_finish_of_not {objective : Option ObjectiveSpec}
    (hobjective : after.objective = .ok objective)
    (hnot : ¬ (withObjective = true ∧ objective.isSome = true)) :
    t.finish params withObjective after = (t.withPass after, .ok ()) := by
  cases objective with
  | none => exact finish_of_none hobjective
  | some spec =>
    cases withObjective with
    | false => exact finish_false hobjective
    | true => simp at hnot

/-- What follows a pass depends on the records and the objective that it left, and on the model only
if no objective is installed. -/
theorem finish_congr (hrecords : b.records = a.records) (hobjective : b.objective = a.objective)
    (hslot : ∀ objective, a.objective = .ok objective →
      ¬ (withObjective = true ∧ objective.isSome = true) →
      b.model.get? Model.objectiveName = a.model.get? Model.objectiveName) :
    (t.finish params withObjective b).2 = (t.finish params withObjective a).2 ∧
      ((t.finish params withObjective a).2 = .ok () →
        (t.finish params withObjective b).1.equations =
          (t.finish params withObjective a).1.equations ∧
        (t.finish params withObjective b).1.objective? =
          (t.finish params withObjective a).1.objective?) := by
  cases ha : a.objective with
  | error e =>
    rw [finish_of_error ha, finish_of_error (hobjective.trans ha)]
    exact ⟨rfl, fun h => by simp at h⟩
  | ok objective =>
    by_cases hinstall : withObjective = true ∧ objective.isSome = true
    · -- both install the same objective in the end, or refuse it for the same reason
      obtain ⟨rfl, hsome⟩ := hinstall
      obtain ⟨spec, rfl⟩ := Option.isSome_iff_exists.mp hsome
      have hbody : spec.compiled (t.withPass b) params = spec.compiled (t.withPass a) params := rfl
      rw [finish_true ha, finish_true (hobjective.trans ha),
        effect_installObjective (s := t.withPass a) rfl,
        effect_installObjective (s := t.withPass b) rfl, hbody]
      cases chooseSense spec.sense none with
      | error e => exact ⟨rfl, fun h => by simp at h⟩
      | ok sense =>
        cases spec.compiled (t.withPass a) params with
        | error e => exact ⟨rfl, fun h => by simp at h⟩
        | ok body =>
          obtain ⟨hresult, hslot'⟩ := Model.installObjective_congr a.model b.model sense body
          refine ⟨hresult, fun _ => ⟨hrecords, ?_⟩⟩
          show Model.objective? (b.model.installObjective sense body).1 =
            Model.objective? (a.model.installObjective sense body).1
          rw [Model.objective?, Model.objective?, hslot']
    · rw [system_of_finish_of_not ha hinstall,
        system_of_finish_of_not (hobjective.trans ha) hinstall]
      refine ⟨rfl, fun _ => ⟨hrecords, ?_⟩⟩
      show Model.objective? b.model = Model.objective? a.model
      rw [Model.objective?, Model.objective?, hslot objective ha hinstall]

/-! ### Two steps and one -/

/-- Whether a component of the model has this name. -/
def hasComponent (s : EquationSystem) (name : String) : Bool := s.model.any (·.contains name)

/-- The extension of a system, and compiling its equations after that. -/
def extendAndCompile (additions : List Addition) (params : Source) (withObjective : Bool) :
    Action Unit := do
  extend additions
  compileEquations params withObjective

/-- Compiling the equations leaves a pass over the first records. The names that it took are those
of the pass, and that of the objective if one was installed; then the pass knew an objective at its
end. -/
theorem compileEquations_leaves (hm : s.model = some m) (params : Source) (withObjective : Bool) :
    ∃ before rest done known m' m₁, s.equations = before ++ rest ∧
      s.pass params 0 m none before = ⟨done, m', .ok known⟩ ∧
      ((compileEquations params withObjective).effect s).1 = s.onModel m₁ (done ++ rest) ∧
      (∀ name, m'.contains name = true → m₁.contains name = true) ∧
      (∀ name ≠ Model.objectiveName, m₁.contains name = m'.contains name) ∧
      (m₁.get? Model.objectiveName = m.get? Model.objectiveName ∨
        withObjective = true ∧ known.isSome = true) := by
  have heffect := effect_compileEquations hm params withObjective
  obtain ⟨before, rest, done, known, hs, hbefore, hrecords, hend⟩ :=
    s.pass_split params 0 m none s.equations
  have hslot : (s.pass params 0 m none s.equations).model.get? Model.objectiveName =
      m.get? Model.objectiveName := get?_objectiveName_of_pass
  generalize s.pass params 0 m none s.equations = after at *
  obtain ⟨m₁, hm₁, hkept⟩ := s.system_of_finish params withObjective after
  rw [← heffect, hrecords] at hm₁
  have hget : ∀ name ≠ Model.objectiveName, m₁.get? name = after.model.get? name := by
    intro name hname
    rcases hkept with rfl | ⟨o, rfl⟩
    · rfl
    · rw [Model.get?_putObjective, if_neg hname]
  refine ⟨before, rest, done, known, after.model, m₁, hs, hbefore, hm₁, ?_, ?_, ?_⟩
  · intro name hname
    rcases hkept with rfl | ⟨o, rfl⟩
    · exact hname
    · exact Model.contains_putObjective o hname
  · intro name hname
    exact Model.contains_congr (hget name hname)
  · -- unless an objective was installed the model is that of the pass
    have hleft : (s.finish params withObjective after).1 = s.withPass after →
        m₁.get? Model.objectiveName = m.get? Model.objectiveName := by
      intro hfinish
      rw [heffect, hfinish] at hm₁
      have hmodel : after.model = m₁ := Option.some.inj (congrArg EquationSystem.model hm₁)
      rw [← hmodel, hslot]
    rcases hend with ⟨-, hobjective⟩ | ⟨r, tail, e, -, -, hobjective⟩
    · by_cases hinstall : withObjective = true ∧ known.isSome = true
      · exact .inr hinstall
      · exact .inl (hleft (congrArg Prod.fst (system_of_finish_of_not hobjective hinstall)))
    · exact .inl (hleft (congrArg Prod.fst (finish_of_error hobjective)))

/-- A pass that starts from what an earlier one left, in a larger system, ends as a pass over all
records does, and so does what follows it. Unless the earlier one knew an objective that was to be
installed, the models agree on the objective. -/
theorem finish_resumed {before done : List Record} {known : Option ObjectiveSpec}
    {names : List String} {m' n n' : Model} (rest : List Record) (hgrows : s.Grows t)
    (hadds : m.Adds names n) (hadds' : m'.Adds names n')
    (hbefore : s.pass params 0 m none before = ⟨done, m', .ok known⟩)
    (hfree : ∀ name ∈ names, m'.contains name = true → m.contains name = true)
    (hslot : n'.get? Model.objectiveName = n.get? Model.objectiveName ∨
      withObjective = true ∧ known.isSome = true) :
    let resumed := t.finish params withObjective (t.pass params 0 n' none (done ++ rest))
    let batch := t.finish params withObjective (t.pass params 0 n none (before ++ rest))
    resumed.2 = batch.2 ∧ (batch.2 = .ok () →
      resumed.1.equations = batch.1.equations ∧ resumed.1.objective? = batch.1.objective?) := by
  obtain ⟨hrecords, hobjective⟩ := pass_resumed rest hgrows hadds hadds' hbefore hfree
  refine finish_congr hrecords hobjective fun objective hlast hinstall => ?_
  rw [get?_objectiveName_of_pass, get?_objectiveName_of_pass]
  refine hslot.resolve_right ?_
  -- the objective that the earlier pass knew is known at the end of the later one
  rintro ⟨hwith, hknown⟩
  have hagain := hobjective.trans hlast
  rw [pass_append rest (pass_done hbefore t params 0 n')] at hagain
  exact hinstall ⟨hwith, isSome_of_pass hknown hagain⟩

/-- Whether a step came before the extension makes no difference to the result, the records and the
objective. -/
theorem extendAndCompile_congr (s : EquationSystem) (params : Source) (withObjective : Bool)
    (additions : List Addition)
    (hnew : ∀ a ∈ additions, ∀ name ∈ a.name?, s.registry.contains name = false)
    (hfree : ∀ a ∈ additions, ∀ name ∈ a.name?,
      ((compileEquations params withObjective).effect s).1.hasComponent name = true →
        s.hasComponent name = true) :
    let first := ((compileEquations params withObjective).effect s).1
    let resumed := (extendAndCompile additions params withObjective).effect first
    let batch := (extendAndCompile additions params withObjective).effect s
    resumed.2 = batch.2 ∧ (batch.2 = .ok () →
      resumed.1.equations = batch.1.equations ∧ resumed.1.objective? = batch.1.objective?) := by
  intro first resumed batch
  cases hm : s.model with
  | none =>
    have hfirst : first = s := congrArg Prod.fst (effect_compileEquations_noModel hm _ _)
    rw [show resumed = batch from congrArg (extendAndCompile _ _ _).effect hfirst]
    exact ⟨rfl, fun _ => ⟨rfl, rfl⟩⟩
  | some m =>
    obtain ⟨before, rest, done, known, m', m₁, hs, hbefore, hfirst, htaken, hnames, hslot⟩ :=
      compileEquations_leaves hm params withObjective
    have hkept : ∀ name, m.contains name = true → m'.contains name = true := by
      intro name hname
      have hpass : (s.pass params 0 m none before).model.contains name = true :=
        contains_pass hname
      rw [hbefore] at hpass
      exact hpass
    -- so the extension finds the same names taken, with and without the first step
    have hsame : ∀ a ∈ additions, ∀ name ∈ a.name?, m₁.contains name = m.contains name := by
      intro a ha name hname
      have hchosen := hfree a ha name hname
      rw [hfirst, hasComponent, hasComponent, hm] at hchosen
      rw [Bool.eq_iff_iff]
      exact ⟨hchosen, fun hold => htaken name (hkept name hold)⟩
    obtain ⟨t, result, gained, added, hbatch, hresumed, hgained⟩ :=
      extend_parallel additions s m m₁ (before ++ rest) (done ++ rest) hsame
    have hgrows : s.Grows t := by
      have hextend := grows_extend additions (Grows.refl s) hnew
      rw [← s.onModel_self hm, hs, hbatch] at hextend
      exact ⟨hextend.registry, hextend.vars⟩
    rw [← hs, onModel_self hm, hs] at hbatch
    have hresume : resumed = (extendAndCompile additions params withObjective).effect
        (s.onModel m₁ (done ++ rest)) := congrArg (extendAndCompile _ _ _).effect hfirst
    cases result with
    | error e =>
      have hb : batch = _ := effect_bind_of_error hbatch
      have hr : resumed = _ := hresume.trans (effect_bind_of_error hresumed)
      rw [hb, hr]
      exact ⟨rfl, fun h => by simp at h⟩
    | ok u =>
      have hb : batch = _ := (effect_bind_of_ok hbatch).trans (effect_compileEquations rfl _ _)
      have hr : resumed = _ := (hresume.trans (effect_bind_of_ok hresumed)).trans
        (effect_compileEquations rfl _ _)
      have hadds : m.Adds (gained.map Prod.fst) (m.append gained) := by
        intro name _
        exact Model.contains_append gained name
      have hadds' : m'.Adds (gained.map Prod.fst) (m₁.append gained) := by
        intro name hname
        rw [Model.contains_append, hnames name hname]
      -- the first step gave away none of the names that the extension takes
      have hfree' : ∀ name ∈ gained.map Prod.fst, m'.contains name = true →
          m.contains name = true := by
        intro name hname hchosen
        obtain ⟨entry, hentry, rfl⟩ := List.mem_map.mp hname
        obtain ⟨a, ha, hregistered⟩ := hgained entry hentry
        rw [← hsame a ha _ hregistered]
        exact htaken _ hchosen
      have hslot' : (m₁.append gained).get? Model.objectiveName =
            (m.append gained).get? Model.objectiveName ∨
          withObjective = true ∧ known.isSome = true :=
        hslot.imp_left (Model.get?_append_congr gained)
      have honModel : ∀ k rs, (t.onModel k rs).pass = t.pass := fun k rs => t.pass_with (some k) rs
      rw [hb, hr, honModel, honModel, finish_onModel, finish_onModel, onModel_equations,
        onModel_equations, List.append_assoc, List.append_assoc]
      exact finish_resumed (rest ++ added) hgrows hadds hadds' hbefore hfree' hslot'

/-- **Compiling in two steps is compiling in one.** Let the equations of a system be compiled,
whether that succeeds or fails, the system be extended under names that are new and that the first
step gave to no component, and its equations be compiled again. That succeeds exactly if extending
the system and compiling its equations once does, and then the records, with the names, residuals
and shapes of their constraints, and the installed objective are the same.

So a step that succeeded may be repeated without effect, and one that failed may be resumed. -/
theorem compileEquations_incremental (s : EquationSystem) (params : Source) (withObjective : Bool)
    (additions : List Addition)
    (hnew : ∀ a ∈ additions, ∀ name ∈ a.name?, s.registry.contains name = false)
    (hfree : ∀ a ∈ additions, ∀ name ∈ a.name?,
      ((compileEquations params withObjective).effect s).1.hasComponent name = true →
        s.hasComponent name = true) :
    let first := (compileEquations params withObjective).effect s
    let again := (compileEquations params withObjective).effect first.1
    let resumed := (extendAndCompile additions params withObjective).effect first.1
    let batch := (extendAndCompile additions params withObjective).effect s
    (resumed.2 = .ok () ↔ batch.2 = .ok ()) ∧
      (batch.2 = .ok () →
        resumed.1.equations = batch.1.equations ∧ resumed.1.objective? = batch.1.objective?) ∧
      (first.2 = .ok () → again.2 = .ok () ∧ again.1.equations = first.1.equations ∧
        again.1.objective? = first.1.objective?) := by
  intro first again resumed batch
  obtain ⟨hresult, hbatch⟩ := extendAndCompile_congr s params withObjective additions hnew hfree
  refine ⟨by rw [hresult], hbatch, fun hfirst => ?_⟩
  -- nothing is added between the two steps
  obtain ⟨hagain, hsame⟩ := extendAndCompile_congr s params withObjective [] (by simp) (by simp)
  exact ⟨hagain.trans hfirst, hsame hfirst⟩

/-- The first step stops at a variable that is missing, after one record, and the second one goes on
from there. -/
theorem compileEquations_resumes_after_missing_variable :
    let one : Term := .const (.number (.int 1))
    let s : EquationSystem := { new (some (.empty "model")) with
      vars := [⟨"x", some (.int 3), false, none, none⟩]
      registry := ⟨[("x", .ofVar 0)]⟩
      equations := [equationRecord "first" (.eq (.var "x" none) one),
        equationRecord "second" (.eq (.var "y" none) one)] }
    let additions : List Addition := [.newVariable "y" none none none none]
    ((compileEquations .absent true).effect s).2 = .error (.missingVariable "y") ∧
      (∀ a ∈ additions, ∀ name ∈ a.name?, s.registry.contains name = false) ∧
      (∀ a ∈ additions, ∀ name ∈ a.name?,
        ((compileEquations .absent true).effect s).1.hasComponent name = true →
          s.hasComponent name = true) ∧
      ((extendAndCompile additions .absent true).effect
        ((compileEquations .absent true).effect s).1).2 = .ok () ∧
      ((extendAndCompile additions .absent true).effect
          ((compileEquations .absent true).effect s).1).1.equations =
        ((extendAndCompile additions .absent true).effect s).1.equations := by
  intro one s additions
  have hnew : ∀ a ∈ additions, ∀ name ∈ a.name?, s.registry.contains name = false := by
    intro a ha name hname
    obtain rfl := List.mem_singleton.mp ha
    obtain rfl := Option.mem_some_iff.mp hname
    rfl
  have hfree : ∀ a ∈ additions, ∀ name ∈ a.name?,
      ((compileEquations .absent true).effect s).1.hasComponent name = true →
        s.hasComponent name = true := by
    intro a ha name hname hchosen
    obtain rfl := List.mem_singleton.mp ha
    obtain rfl := Option.mem_some_iff.mp hname
    have hnot : ((compileEquations .absent true).effect s).1.hasComponent "y" = false := rfl
    rw [hnot] at hchosen
    exact absurd hchosen Bool.false_ne_true
  have hbatch : ((extendAndCompile additions .absent true).effect s).2 = .ok () := rfl
  obtain ⟨hiff, hsame, -⟩ := compileEquations_incremental s .absent true additions hnew hfree
  obtain ⟨hrecords, -⟩ := hsame hbatch
  exact ⟨rfl, hnew, hfree, hiff.mpr hbatch, hrecords⟩

end EquationSystem

end Equilibrium

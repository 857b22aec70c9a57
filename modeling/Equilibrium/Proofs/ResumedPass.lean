/-
Passes over records that were compiled before.

A second pass finds records that a first one compiled, and a model in which the first one, and
others, have taken names. It leaves the compiled records alone, and what it makes of the others is
what one pass over all records would have made of them:

* `Model.Adds` - the names that are taken in one model are those of another one and some more; the
  name of the objective does not count, since no equation is given that name;
* `EquationSystem.pass_mono` - a pass that succeeds makes the same of the records in a larger system
  on a model with more names, unless it was given one of these names;
* `EquationSystem.pass_congr` - on models with the same names a pass makes the same of the records,
  whether it succeeds or fails;
* `EquationSystem.pass_done` - nothing is made of records that are compiled already;
* `EquationSystem.pass_resumed` - so a pass over the records that an earlier one left is the pass
  over all of them;
* `EquationSystem.isSome_of_pass` - an objective that is known stays known.
-/
import Equilibrium.Proofs.Growth
import Equilibrium.Proofs.PointwisePass

namespace Equilibrium

/-! ### Models with more names -/

namespace Model

/-- The names that are taken in `n` are those of `m` and some more, the name of the objective apart.
-/
def Adds (m : Model) (names : List String) (n : Model) : Prop :=
  ∀ name ≠ objectiveName, n.contains name = true ↔ m.contains name = true ∨ name ∈ names

variable {m n : Model} {names : List String}

theorem contains_place {c : Constraint} (hfree : m.contains c.name = false) (name : String) :
    (m.place c).contains name = (name == c.name || m.contains name) :=
  contains_add (add_constraint hfree) name

/-- A name that is none of the additional ones is found in both models. -/
theorem Adds.freshName_eq (h : m.Adds names n) {base : String} {position : Nat}
    (hnew : m.freshName (base ++ toString position) ∉ names) :
    n.freshName (base ++ toString position) = m.freshName (base ++ toString position) := by
  refine freshName_eq_of_contains (fun k hk => ?_) ?_
  · exact (h _ (candidate_ne_objectiveName base position k)).mpr (.inl hk)
  · obtain ⟨k, hname, hfree, -⟩ := m.freshName_least (base ++ toString position)
    rw [hname] at hnew ⊢
    rw [Bool.eq_false_iff]
    intro htaken
    rcases (h _ (candidate_ne_objectiveName base position k)).mp htaken with hold | hadded
    · rw [hfree] at hold
      exact absurd hold Bool.false_ne_true
    · exact hnew hadded

theorem Adds.place (h : m.Adds names n) {c : Constraint} (hm : m.contains c.name = false)
    (hn : n.contains c.name = false) : (m.place c).Adds names (n.place c) := by
  intro name hname
  rw [contains_place hm, contains_place hn, Bool.or_eq_true, Bool.or_eq_true, h name hname,
    or_assoc]

end Model

namespace EquationSystem

variable {s t : EquationSystem} {params : Source} {position : Nat} {m m' n : Model}
  {names : List String} {known objective : Option ObjectiveSpec} {r r' : Record}
  {records done : List Record}

theorem contains_pass {name : String} (h : m.contains name = true) :
    (s.pass params position m known records).model.contains name = true := by
  obtain ⟨x, hx⟩ := Model.contains_iff_exists.mp h
  exact Model.contains_iff_exists.mpr ⟨x, get?_pass hx⟩

theorem contains_of_update (h : s.update params position m r = .ok (r', m')) {name : String}
    (hname : m.contains name = true) : m'.contains name = true := by
  obtain ⟨x, hx⟩ := Model.contains_iff_exists.mp hname
  exact Model.contains_iff_exists.mpr ⟨x, (placed_of_update h).1 name x hx⟩

/-! ### More names and more variables -/

theorem update_mono (hgrows : s.Grows t) (hadds : m.Adds names n)
    (h : s.update params position m r = .ok (r', m'))
    (hnew : ∀ name ∈ names, m'.contains name = true → m.contains name = true) :
    ∃ n', t.update params position n r = .ok (r', n') ∧ m'.Adds names n' := by
  rcases update_cases h with
    ⟨hpending, rfl, rfl⟩ | ⟨p, equation, c, hpending, -, hparts, hname, rfl, rfl⟩
  · exact ⟨n, update_of_pending?_eq_none hpending, hadds⟩
  · have hfree : m.contains c.name = false := hname ▸ m.contains_freshName _
    -- a name that the update gave was free before it, so it is none of the additional ones
    have hnotMem : c.name ∉ names := by
      intro hmem
      have hplaced : (m.place c).contains c.name = true := by
        rw [Model.contains_place hfree]
        simp
      simp [hnew _ hmem hplaced] at hfree
    have hsame : n.freshName (componentName position r) = m.freshName (componentName position r) :=
      hadds.freshName_eq (hname ▸ hnotMem)
    have hfree' : n.contains c.name = false := by
      rw [hname, ← hsame]
      exact n.contains_freshName _
    refine ⟨n.place c, ?_, hadds.place hfree hfree'⟩
    rw [update_of_pending? hpending, partsOf_mono hgrows hparts, hsame, ← hname]
    rfl

theorem visit_mono (hgrows : s.Grows t) (hadds : m.Adds names n)
    (h : s.visit params position m known r = .ok (r', m', objective))
    (hnew : ∀ name ∈ names, m'.contains name = true → m.contains name = true) :
    ∃ n', t.visit params position n known r = .ok (r', n', objective) ∧ m'.Adds names n' := by
  obtain ⟨hobjective, hupdate⟩ := visit_eq_ok.mp h
  obtain ⟨n', hn', hadds'⟩ := update_mono hgrows hadds hupdate hnew
  exact ⟨n', visit_eq_ok.mpr ⟨hobjective, hn'⟩, hadds'⟩

/-- A pass that succeeds makes the same of the records in a larger system on a model with more
names, unless one of these names was given to an equation. -/
theorem pass_mono (hgrows : s.Grows t) (hadds : m.Adds names n)
    (h : s.pass params position m known records = ⟨done, m', .ok objective⟩)
    (hnew : ∀ name ∈ names, m'.contains name = true → m.contains name = true) :
    ∃ n', t.pass params position n known records = ⟨done, n', .ok objective⟩ ∧
      m'.Adds names n' := by
  induction records generalizing position m n known done with
  | nil =>
    cases h
    exact ⟨n, rfl, hadds⟩
  | cons r rest ih =>
    obtain ⟨r', m₁, known₁, done', hvisit, hpass, rfl⟩ := pass_cons_eq_ok h
    have hupdate := (visit_eq_ok.mp hvisit).2
    -- the visit gave away none of these names, and neither did the rest of the pass
    have hfirst : ∀ name ∈ names, m₁.contains name = true → m.contains name = true := by
      intro name hname htaken
      have hkept : (s.pass params (position + 1) m₁ known₁ rest).model.contains name = true :=
        contains_pass htaken
      rw [hpass] at hkept
      exact hnew name hname hkept
    have hlater : ∀ name ∈ names, m'.contains name = true → m₁.contains name = true :=
      fun name hname htaken => contains_of_update hupdate (hnew name hname htaken)
    obtain ⟨n₁, hvisit', hadds₁⟩ := visit_mono hgrows hadds hvisit hfirst
    obtain ⟨n', hrest, hadds'⟩ := ih hadds₁ hpass hlater
    exact ⟨n', by rw [pass_cons_of_ok hvisit', hrest], hadds'⟩

/-! ### The same names -/

/-- Whether a visit fails does not depend on the model. -/
theorem visit_error {e : Fault} (h : s.visit params position m known r = .error e) (n : Model) :
    s.visit params position n known r = .error e := by
  rw [visit] at h ⊢
  cases hobjective : r.nextObjective known with
  | error e' =>
    rw [hobjective] at h
    exact h
  | ok known' =>
    rw [hobjective] at h
    cases hpending : r.pending? with
    | none =>
      rw [update_of_pending?_eq_none hpending] at h
      cases h
    | some pending =>
      obtain ⟨p, equation⟩ := pending
      rw [update_of_pending? hpending] at h ⊢
      cases hparts : s.partsOf params p equation with
      | error e' =>
        rw [hparts] at h
        exact h
      | ok parts =>
        rw [hparts] at h
        cases h

/-- On models with the same names a pass makes the same of the records, and ends the same way. -/
theorem pass_congr (hsame : m.Adds [] n) :
    (s.pass params position n known records).records =
        (s.pass params position m known records).records ∧
      (s.pass params position n known records).objective =
        (s.pass params position m known records).objective := by
  induction records generalizing position m n known with
  | nil => exact ⟨rfl, rfl⟩
  | cons r rest ih =>
    cases hvisit : s.visit params position m known r with
    | error e =>
      rw [pass_cons_of_error hvisit, pass_cons_of_error (visit_error hvisit n)]
      exact ⟨rfl, rfl⟩
    | ok result =>
      obtain ⟨r', m₁, known₁⟩ := result
      obtain ⟨n₁, hvisit', hsame₁⟩ := visit_mono (Grows.refl s) hsame hvisit (by simp)
      rw [pass_cons_of_ok hvisit, pass_cons_of_ok hvisit']
      obtain ⟨hrecords, hobjective⟩ := ih hsame₁
      exact ⟨congrArg (r' :: ·) hrecords, hobjective⟩

/-! ### Compiled records -/

/-- The record that a visit leaves is compiled, and has the same objective. -/
theorem pending?_of_update (h : s.update params position m r = .ok (r', m')) :
    r'.pending? = none ∧ ∀ known, r'.nextObjective known = r.nextObjective known := by
  rcases update_cases h with ⟨hpending, rfl, -⟩ | ⟨p, equation, c, -, hr, -, -, rfl, -⟩
  · exact ⟨hpending, fun _ => rfl⟩
  · exact ⟨Record.pending?_attach hr c, fun known => Record.nextObjective_attach known r c⟩

/-- Nothing is made of the records that a pass left, in any system and on any model, and they have
the same objective. -/
theorem pass_done (h : s.pass params position m known records = ⟨done, m', .ok objective⟩)
    (t : EquationSystem) (params' : Source) (position' : Nat) (n : Model) :
    t.pass params' position' n known done = ⟨done, n, .ok objective⟩ := by
  induction records generalizing position m known done position' with
  | nil =>
    cases h
    rfl
  | cons r rest ih =>
    obtain ⟨r', m₁, known₁, done', hvisit, hpass, rfl⟩ := pass_cons_eq_ok h
    obtain ⟨hknown, hupdate⟩ := visit_eq_ok.mp hvisit
    obtain ⟨hdone, hsame⟩ := pending?_of_update hupdate
    have hvisit' : t.visit params' position' n known r' = .ok (r', n, known₁) :=
      visit_eq_ok.mpr ⟨(hsame known).trans hknown, update_of_pending?_eq_none hdone⟩
    rw [pass_cons_of_ok hvisit', ih hpass]

/-- A pass that starts from the records and the names that an earlier one left makes the same of all
records as a pass that starts afresh. -/
theorem pass_resumed {w : Model} (rest : List Record) (hgrows : s.Grows t) (hadds : m.Adds names n)
    (hadds' : m'.Adds names w)
    (h : s.pass params position m known records = ⟨done, m', .ok objective⟩)
    (hnew : ∀ name ∈ names, m'.contains name = true → m.contains name = true) :
    (t.pass params position w known (done ++ rest)).records =
        (t.pass params position n known (records ++ rest)).records ∧
      (t.pass params position w known (done ++ rest)).objective =
        (t.pass params position n known (records ++ rest)).objective := by
  -- over the first records a fresh pass makes the same, and then as many names are taken
  obtain ⟨n', hafresh, hn'⟩ := pass_mono hgrows hadds h hnew
  have hdone : t.pass params position w known done = ⟨done, w, .ok objective⟩ :=
    pass_done h t params position w
  have hsame : n'.Adds [] w := by
    intro name hname
    rw [hadds' name hname, ← hn' name hname]
    simp
  have hlength : records.length = done.length := (compiles_of_pass h).1.length_eq
  rw [pass_append rest hafresh, pass_append rest hdone, hlength]
  obtain ⟨hrecords, hobjective⟩ := pass_congr (s := t) hsame
  exact ⟨congrArg (done ++ ·) hrecords, hobjective⟩

/-! ### Objectives -/

theorem isSome_of_nextObjective (h : r.nextObjective known = .ok objective)
    (hknown : known.isSome = true) : objective.isSome = true := by
  rw [Record.nextObjective] at h
  cases hr : r.structured? with
  | none =>
    rw [hr] at h
    cases h
    exact hknown
  | some p =>
    rw [hr] at h
    replace h : nextObjective known p = .ok objective := h
    rw [nextObjective] at h
    cases hbody : p.objective with
    | none =>
      rw [hbody] at h
      cases h
      exact hknown
    | some body => simp [hbody, hknown] at h

/-- An objective that is known before a pass is known after it. -/
theorem isSome_of_pass (hknown : known.isSome = true)
    (h : (s.pass params position m known records).objective = .ok objective) :
    objective.isSome = true := by
  induction records generalizing position m known with
  | nil =>
    cases h
    exact hknown
  | cons r rest ih =>
    cases hvisit : s.visit params position m known r with
    | error e =>
      rw [pass_cons_of_error hvisit] at h
      cases h
    | ok result =>
      obtain ⟨r', m₁, known₁⟩ := result
      rw [pass_cons_of_ok hvisit] at h
      exact ih (isSome_of_nextObjective (visit_eq_ok.mp hvisit).1 hknown) h

/-- A pass leaves the component with the name of the objective alone. -/
theorem get?_objectiveName_of_update (h : s.update params position m r = .ok (r', m')) :
    m'.get? Model.objectiveName = m.get? Model.objectiveName := by
  have hplaced := (placed_of_update h).2
  rcases update_cases h with ⟨-, -, rfl⟩ | ⟨p, equation, c, hpending, hr, -, -, rfl, rfl⟩
  · rfl
  · rw [hpending, Option.bind_some, Record.compiled?_attach hr] at hplaced
    exact Table.get?_insert_of_ne _ _ (Ne.symm (hplaced c rfl).2)

theorem get?_objectiveName_of_pass :
    (s.pass params position m known records).model.get? Model.objectiveName =
      m.get? Model.objectiveName := by
  induction records generalizing position m known with
  | nil => rfl
  | cons r rest ih =>
    cases hvisit : s.visit params position m known r with
    | error e => rw [pass_cons_of_error hvisit]
    | ok result =>
      obtain ⟨r', m₁, known₁⟩ := result
      rw [pass_cons_of_ok hvisit]
      exact ih.trans (get?_objectiveName_of_update (visit_eq_ok.mp hvisit).2)

end EquationSystem

end Equilibrium

/-
Refreshing the residuals of a system.

A refresh goes through the records and measures each compiled constraint. A residual without a value
is cleared. A residual with a value that is no double is not: a complex number or a whole number out
of range ends the refresh.

* `Record.reading_of_isReadable`, `Record.reading_of_not_isReadable` - what one measurement gives;
* `EquationSystem.refresh_append` - a stretch of readable records, and what follows it;
* `EquationSystem.updateResiduals_exact` - a refresh succeeds exactly if all residuals are readable.
  Then every residual is the current one, and their number is returned. Otherwise the records
  before the first unreadable one are refreshed, and it and all later ones keep what they had.
-/
import Equilibrium.EquationSystem.Equations
import Equilibrium.EquationSystem.Solving
import Equilibrium.Proofs.DoubleRange
import Mathlib.Tactic.ByContra

namespace Equilibrium

/-- Whether a number is a double, or a whole number in the range of doubles. -/
def Number.isReadable : Number → Bool
  | int n => n.natAbs < Binary.limit
  | real _ => true
  | complex _ => false

theorem Number.toReal_of_isReadable {n : Number} (h : n.isReadable = true) :
    ∃ x, n.toReal = .ok x := by
  cases n with
  | int k =>
    have hk : k.natAbs < Binary.limit := by simpa [isReadable] using h
    exact ⟨Binary.ofInt k, by rw [toReal, realOfInt_eq, if_pos hk]⟩
  | real x => exact ⟨x, rfl⟩
  | complex z => simp [isReadable] at h

/-- Why a number is not read as a double. -/
def Number.refusal (n : Number) : Fault := if n.isComplex then .illTyped else .overflow

theorem Number.toReal_of_not_isReadable {n : Number} (h : n.isReadable = false) :
    n.toReal = .error n.refusal := by
  cases n with
  | int k =>
    have hk : ¬k.natAbs < Binary.limit := by simpa [isReadable] using h
    rw [toReal, realOfInt_eq, if_neg hk]
    rfl
  | real x => simp [isReadable] at h
  | complex z => rfl

/-- The value of an expression as a double, where it has a value and the value is one. -/
def Expression.real? (values : Assignment) (e : Expression) : Option Float :=
  (e.eval values).bind fun n => n.toReal.toOption

namespace Record

/-- The compiled constraint that a record carries. -/
def compiled? (r : Record) : Option Constraint := r.structured?.bind Payload.compiled?

/-- The residual that a record holds. -/
def residual? (r : Record) : Option Float := r.structured?.bind Payload.residual

/-- Whether a record carries a compiled constraint and holds a residual. -/
def isMeasured (r : Record) : Bool := r.compiled?.isSome && r.residual?.isSome

/-- Whether the residual of a record, as far as it has a value, is a double. -/
def isReadable (values : Assignment) (r : Record) : Bool :=
  ((r.compiled?.bind fun c => c.residual.eval values).map Number.isReadable).getD true

/-- The record with the residual that its constraint has under some values. -/
def measured (values : Assignment) (r : Record) : Record :=
  match r.compiled? with
  | some c => r.setResidual (c.residual.real? values)
  | none => r

/-- A record carries no constraint, or a compiled one. -/
def CarriesCompiled (r : Record) : Prop :=
  ∀ v, r.structured?.bind Payload.constraint ≠ some (.foreign v)

variable {values : Assignment} {r : Record}

theorem constraint_of_compiled? {c : Constraint} (h : r.compiled? = some c) :
    r.structured?.bind Payload.constraint = some (.compiled c) := by
  obtain ⟨p, hp, hc⟩ := Option.bind_eq_some_iff.mp h
  rw [Payload.compiled?] at hc
  split at hc
  · next d hd =>
    cases hc
    rw [hp, Option.bind_some, hd]
  · simp at hc

theorem constraint_of_compiled?_eq_none (hr : r.CarriesCompiled) (h : r.compiled? = none) :
    r.structured?.bind Payload.constraint = none := by
  cases hcarried : r.structured?.bind Payload.constraint with
  | none => rfl
  | some attachment =>
    cases attachment with
    | foreign v => exact absurd hcarried (hr v)
    | compiled c =>
      obtain ⟨p, hp, hpc⟩ := Option.bind_eq_some_iff.mp hcarried
      simp [compiled?, hp, Payload.compiled?, hpc] at h

/-- Setting a residual changes no constraint. -/
theorem compiled?_setResidual (x : Option Float) : (r.setResidual x).compiled? = r.compiled? := by
  rcases hr : r with ⟨tag, block, content⟩
  cases content with
  | structured p => rfl
  | foreign v => rfl

theorem residual?_setResidual {c : Constraint} (h : r.compiled? = some c) (x : Option Float) :
    (r.setResidual x).residual? = x := by
  rcases hr : r with ⟨tag, block, content⟩
  cases content with
  | structured p => rfl
  | foreign v => simp [hr, compiled?, structured?] at h

/-- A record that carries no compiled constraint is left alone. -/
theorem measured_of_compiled?_eq_none (h : r.compiled? = none) : r.measured values = r := by
  rw [measured, h]

/-- A compiled constraint is measured by its residual. -/
theorem reading_of_compiled? {c : Constraint} (h : r.compiled? = some c) :
    r.reading values =
      (c.residualValue values).map fun x => x.elim Reading.unavailable Reading.measured := by
  rw [reading, constraint_of_compiled? h]
  show c.residualValue values >>= _ = _
  cases c.residualValue values with
  | error e => rfl
  | ok x => cases x <;> rfl

/-- A readable record takes the residual that its constraint has. -/
theorem reading_of_isReadable (hr : r.CarriesCompiled) (h : r.isReadable values = true) :
    ∃ reading, r.reading values = .ok reading ∧ r.refreshed reading = r.measured values ∧
      reading.isMeasured = (r.measured values).isMeasured := by
  cases hc : r.compiled? with
  | none =>
    refine ⟨.exempt, ?_, ?_, ?_⟩
    · rw [reading, constraint_of_compiled?_eq_none hr hc]
    · rw [measured_of_compiled?_eq_none hc]
      rfl
    · rw [measured_of_compiled?_eq_none hc, isMeasured, hc]
      rfl
  | some c =>
    have hmeasured : r.measured values = r.setResidual (c.residual.real? values) := by
      rw [measured, hc]
    rw [reading_of_compiled? hc, hmeasured, isMeasured, compiled?_setResidual, hc,
      residual?_setResidual hc]
    rw [isReadable, hc, Option.bind_some] at h
    cases hv : c.residual.eval values with
    | none =>
      have hreal : c.residual.real? values = none := by rw [Expression.real?, hv, Option.bind_none]
      rw [Constraint.residualValue_of_eval_eq_none hv, hreal]
      exact ⟨.unavailable, rfl, rfl, rfl⟩
    | some n =>
      rw [hv] at h
      obtain ⟨x, hx⟩ := Number.toReal_of_isReadable h
      have hreal : c.residual.real? values = some x := by
        rw [Expression.real?, hv, Option.bind_some, hx]
        rfl
      rw [Constraint.residualValue_of_eval_eq_some hv, hx, hreal]
      exact ⟨.measured x, rfl, rfl, rfl⟩

/-- The residual of an unreadable record has a value, and converting it fails. -/
theorem reading_of_not_isReadable (h : r.isReadable values = false) :
    ∃ c n, r.compiled? = some c ∧ c.residual.eval values = some n ∧
      r.reading values = .error n.refusal := by
  rw [isReadable] at h
  cases hc : r.compiled? with
  | none => simp [hc] at h
  | some c =>
    rw [hc, Option.bind_some] at h
    cases hv : c.residual.eval values with
    | none => simp [hv] at h
    | some n =>
      rw [hv] at h
      refine ⟨c, n, rfl, hv, ?_⟩
      rw [reading_of_compiled? hc, Constraint.residualValue_of_eval_eq_some hv,
        Number.toReal_of_not_isReadable h]
      rfl

end Record

namespace EquationSystem

variable {values : Assignment}

/-- A stretch of readable records takes its residuals, whatever the records after it give. -/
theorem refresh_append (rest : List Record) {before : List Record}
    (hcompiled : ∀ r ∈ before, r.CarriesCompiled)
    (hreadable : ∀ r ∈ before, r.isReadable values = true) :
    (refresh values (before ++ rest)).1 =
        before.map (Record.measured values) ++ (refresh values rest).1 ∧
      (refresh values (before ++ rest)).2.2 = (refresh values rest).2.2.map
        (· + (before.map (Record.measured values)).countP Record.isMeasured) := by
  induction before with
  | nil =>
    refine ⟨rfl, ?_⟩
    show (refresh values rest).2.2 = _
    cases (refresh values rest).2.2 <;> rfl
  | cons r before ih =>
    obtain ⟨hrecords, hcount⟩ := ih (fun q hq => hcompiled q (List.mem_cons_of_mem r hq))
      fun q hq => hreadable q (List.mem_cons_of_mem r hq)
    obtain ⟨reading, hreading, hrefreshed, hmeasured⟩ :=
      Record.reading_of_isReadable (hcompiled r List.mem_cons_self)
        (hreadable r List.mem_cons_self)
    rw [List.cons_append, refresh, hreading]
    constructor
    · show r.refreshed reading :: (refresh values (before ++ rest)).1 = _
      rw [hrefreshed, hrecords]
      rfl
    · show (refresh values (before ++ rest)).2.2.map
        (fun n => if reading.isMeasured then n + 1 else n) = _
      rw [hcount, hmeasured, List.map_cons, List.countP_cons]
      cases (refresh values rest).2.2 with
      | error e => rfl
      | ok n =>
        show Except.ok _ = Except.ok _
        split <;> rfl

/-- The first unreadable record ends the refresh; nothing is changed from it on. -/
theorem refresh_of_unreadable (after : List Record) {before : List Record} {r : Record}
    (hcompiled : ∀ q ∈ before, q.CarriesCompiled)
    (hreadable : ∀ q ∈ before, q.isReadable values = true) (hr : r.isReadable values = false) :
    (refresh values (before ++ r :: after)).1 =
        before.map (Record.measured values) ++ r :: after ∧
      ∃ c n, r.compiled? = some c ∧ c.residual.eval values = some n ∧
        (refresh values (before ++ r :: after)).2.2 = .error n.refusal := by
  obtain ⟨hrecords, hcount⟩ := refresh_append (r :: after) hcompiled hreadable
  obtain ⟨c, n, hc, hn, hreading⟩ := Record.reading_of_not_isReadable hr
  rw [hrecords, hcount, refresh, hreading]
  exact ⟨rfl, c, n, hc, hn, rfl⟩

variable {s : EquationSystem}

theorem updateResiduals_of_readable (hcompiled : ∀ r ∈ s.equations, r.CarriesCompiled)
    (hreadable : ∀ r ∈ s.equations, r.isReadable s.assignment = true) :
    (updateResiduals s).system =
        { s with equations := s.equations.map (Record.measured s.assignment) } ∧
      (updateResiduals s).result =
        .ok ((updateResiduals s).system.equations.countP Record.isMeasured) := by
  obtain ⟨hrecords, hcount⟩ := refresh_append [] hcompiled hreadable
  rw [List.append_nil] at hrecords hcount
  have hsystem : (updateResiduals s).system =
      { s with equations := s.equations.map (Record.measured s.assignment) } := by
    rw [updateResiduals_frame, hrecords, refresh, List.append_nil]
  refine ⟨hsystem, ?_⟩
  rw [hsystem]
  exact hcount.trans (congrArg Except.ok (Nat.zero_add _))

theorem updateResiduals_of_unreadable {before after : List Record} {r : Record}
    (hcompiled : ∀ q ∈ s.equations, q.CarriesCompiled) (hsplit : s.equations = before ++ r :: after)
    (hreadable : ∀ q ∈ before, q.isReadable s.assignment = true)
    (hr : r.isReadable s.assignment = false) :
    (updateResiduals s).system =
        { s with equations := before.map (Record.measured s.assignment) ++ r :: after } ∧
      ∃ c n, r.compiled? = some c ∧ c.residual.eval s.assignment = some n ∧
        (updateResiduals s).result = .error n.refusal := by
  have hbefore : ∀ q ∈ before, q.CarriesCompiled := by
    intro q hq
    rw [hsplit] at hcompiled
    exact hcompiled q (List.mem_append_left _ hq)
  obtain ⟨hrecords, hresult⟩ := refresh_of_unreadable after hbefore hreadable hr
  rw [← hsplit] at hrecords hresult
  refine ⟨?_, hresult⟩
  rw [updateResiduals_frame, hrecords]

/-- A refresh succeeds on readable records only. -/
theorem isReadable_of_updateResiduals (hcompiled : ∀ r ∈ s.equations, r.CarriesCompiled) {n : Nat}
    (hn : (updateResiduals s).result = .ok n) :
    ∀ r ∈ s.equations, r.isReadable s.assignment = true := by
  by_contra hnot
  -- the first record that is not readable would end the refresh
  cases hfind : s.equations.find? fun r => !r.isReadable s.assignment with
  | none => exact hnot fun r hr => by simpa using List.find?_eq_none.mp hfind r hr
  | some r =>
    obtain ⟨hr, before, after, hsplit, hreadable⟩ := List.find?_eq_some_iff_append.mp hfind
    obtain ⟨-, c, m, -, -, herror⟩ := updateResiduals_of_unreadable hcompiled hsplit
      (by simpa using hreadable) (by simpa using hr)
    simp [herror] at hn

/-- **A refresh succeeds exactly if every residual is readable.** Then each record that carries a
compiled constraint holds the residual that this constraint has at the current values, or none where
there is none, all else is as it was, and the number of residuals is returned. Otherwise the
records before the first unreadable one are refreshed like this, that record and all later ones
keep the residuals of an earlier refresh, and the refresh fails. -/
theorem updateResiduals_exact (s : EquationSystem)
    (hcompiled : ∀ r ∈ s.equations, r.CarriesCompiled) :
    ((∃ n, (updateResiduals s).result = .ok n) ↔
      ∀ r ∈ s.equations, r.isReadable s.assignment = true) ∧
    ((∀ r ∈ s.equations, r.isReadable s.assignment = true) →
      (updateResiduals s).system =
        { s with equations := s.equations.map (Record.measured s.assignment) } ∧
      (updateResiduals s).result =
        .ok ((updateResiduals s).system.equations.countP Record.isMeasured)) ∧
    ∀ before r after, s.equations = before ++ r :: after →
      (∀ q ∈ before, q.isReadable s.assignment = true) → r.isReadable s.assignment = false →
      (updateResiduals s).system =
        { s with equations := before.map (Record.measured s.assignment) ++ r :: after } ∧
      ∃ c n, r.compiled? = some c ∧ c.residual.eval s.assignment = some n ∧
        (updateResiduals s).result = .error n.refusal := by
  refine ⟨⟨?_, fun h => ⟨_, (updateResiduals_of_readable hcompiled h).2⟩⟩,
    updateResiduals_of_readable hcompiled,
    fun _ _ _ => updateResiduals_of_unreadable hcompiled⟩
  rintro ⟨n, hn⟩
  exact isReadable_of_updateResiduals hcompiled hn

/-- A record with a compiled constraint and a residual, and nothing else. -/
def measuredRecord (c : Constraint) (residual : Float) : Record :=
  ⟨"balance", "toy", .structured {
    equation := none
    objective := none
    sense := .none
    indexNames := none
    indices := []
    params := .absent
    pairing := none
    constraint := some (.compiled c)
    residual := some residual
    extra := Table.empty }⟩

/-- Two records with the residual `3` of an earlier refresh: the difference of a variable with one
that has no value any more, and the first variable alone. The first residual is cleared, and the
second one replaced. -/
theorem updateResiduals_clears_stale_residual :
    let x : Expression := .var 0
    let difference : Expression := .linear [x, .mono (.int (-1)) 1]
    let s : EquationSystem := { new (some (.empty "model")) with
      vars := [⟨"x", some (.real 4.0), false, none, none⟩, ⟨"y", none, false, none, none⟩]
      equations := [
        measuredRecord ⟨"toy_balance_0", difference, .equality x (.var 1)⟩ 3.0,
        measuredRecord ⟨"toy_balance_1", x, .equality x (.number (.int 0))⟩ 3.0] }
    (∀ r ∈ s.equations, r.CarriesCompiled) ∧ (updateResiduals s).result = .ok 1 ∧
      (updateResiduals s).system.equations.map Record.residual? = [none, some 4.0] := by
  intro x difference s
  have hcompiled : ∀ r ∈ s.equations, r.CarriesCompiled := by
    simp [s, measuredRecord, Record.CarriesCompiled, Record.structured?]
  have hreadable : ∀ r ∈ s.equations, r.isReadable s.assignment = true := by
    rintro r (_ | ⟨_, _ | ⟨_, _ | _⟩⟩)
    · rfl
    · rfl
  obtain ⟨hsystem, hcount⟩ := (updateResiduals_exact s hcompiled).2.1 hreadable
  rw [hcount, hsystem]
  exact ⟨hcompiled, rfl, rfl⟩

/-- The compiled equation `x ^ 400 = 0`, and one that can be read. At `x = 10` the first residual is
a whole number out of the range of doubles: the refresh fails, and both records keep the residuals
of the earlier one. -/
theorem updateResiduals_keeps_stale_residuals :
    let s : EquationSystem := { new (some (.empty "model")) with
      vars := [⟨"x", some (.int 10), false, none, none⟩]
      registry := ⟨[("x", .ofVar 0)]⟩ }
    let x : Term := .var "x" none
    let zero : Term := .const (.number (.int 0))
    let power : Term := .pow x (.const (.number (.int 400)))
    ∃ c d, (compileEquation (.eq power zero) .absent [] Table.empty none "big" s).result = .ok c ∧
      (compileEquation (.eq x zero) .absent [] Table.empty none "small" s).result = .ok d ∧
      let s' : EquationSystem := { s with
        equations := [measuredRecord c 1.0, measuredRecord d 1.0] }
      (∀ r ∈ s'.equations, r.CarriesCompiled) ∧ (¬∃ n, (updateResiduals s').result = .ok n) ∧
        (updateResiduals s').system.equations.map Record.residual? = [some 1.0, some 1.0] := by
  refine ⟨_, _, rfl, rfl, ?_⟩
  intro s'
  have hcompiled : ∀ r ∈ s'.equations, r.CarriesCompiled := by
    simp [s', measuredRecord, Record.CarriesCompiled, Record.structured?]
  obtain ⟨hsystem, c, m, -, -, herror⟩ := updateResiduals_of_unreadable hcompiled
    (List.nil_append _).symm (by simp) (by decide +kernel)
  refine ⟨hcompiled, ?_, by rw [hsystem]; rfl⟩
  rintro ⟨n, hn⟩
  simp [herror] at hn

end EquationSystem

end Equilibrium

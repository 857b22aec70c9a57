/-
Equation instances of declared blocks.

A block registers one record for each instance of its equations. What becomes of an instance is told
by its declaration: the equation is a difference of two sides, compiled for that instance alone, and
the record that compiling and measuring make of it holds the value of this difference.

* `occurrences` - the instances of the equations of some blocks, in order;
* `Occurrence.difference?` - the difference of the sides of an instance;
* `EquationSystem.compiles_record` - compiling the record of an instance compiles this difference;
* `EquationSystem.residuals_of_measured` - the residuals of compiled and measured records, instance
  by instance.
-/
import Equilibrium.Dataset
import Equilibrium.Proofs.Assembly
import Equilibrium.Proofs.PointwisePass

namespace Equilibrium

/-- An instance of an equation of a block. -/
structure Occurrence where
  block : String
  spec : EquationSpec
  indices : List String

/-- The instances of the equations of some blocks: in the order of the blocks, of their equations
and of the instances of these. -/
def occurrences (blocks : List Block) : List Occurrence :=
  blocks.flatMap fun b => b.equations.flatMap fun e => e.instances.map fun i => ⟨b.name, e, i⟩

namespace Occurrence

/-- The id under which an instance is exported. -/
def id (o : Occurrence) : String := Dataset.constraintId o.block o.spec.tag o.indices

/-- The record of an instance. -/
def record (shared : Source) (o : Occurrence) : Record :=
  ⟨o.spec.tag, o.block, .structured (o.spec.payload shared o.indices)⟩

/-- What the names in the equation of an instance refer to. Parameters come from the source that is
given to the pass, or from that of the equation, or from the one that the blocks share. -/
def scope (registry : Table Handle) (given shared : Source) (o : Occurrence) : Scope :=
  ⟨registry, given.orElse (o.spec.params.orElse shared), o.indices⟩

/-- The difference of two sides, each compiled for this instance. -/
def difference (registry : Table Handle) (given shared : Source) (o : Occurrence)
    (lhs rhs : Term) : Except Fault Expression := do
  let env := (o.spec.payload shared o.indices).indexBindings
  let left ← lhs.compiled (o.scope registry given shared) env
  let right ← rhs.compiled (o.scope registry given shared) env
  left.sub right

/-- The difference of the sides of an instance, if it is an equation and both sides compile. -/
def difference? (registry : Table Handle) (given shared : Source) (o : Occurrence) :
    Option Expression :=
  match o.spec.equation with
  | some (.eq lhs rhs) => (o.difference registry given shared lhs rhs).toOption
  | _ => none

/-- The value of the difference of the sides of an instance, if it has one. -/
def residual? (registry : Table Handle) (given shared : Source) (values : Assignment)
    (o : Occurrence) : Option Float :=
  (o.difference? registry given shared).bind (Expression.real? values)

/-- The entry of an instance with a residual. -/
def entry (o : Occurrence) (residual : Float) : ResidualEntry :=
  ⟨o.spec.tag, o.block, o.indices, residual⟩

theorem records_eq (shared : Source) (blocks : List Block) :
    blocks.flatMap (·.records shared) = (occurrences blocks).map (record shared) := by
  rw [occurrences, List.map_flatMap]
  refine List.flatMap_congr fun b _ => ?_
  rw [Block.records, List.map_flatMap]
  refine List.flatMap_congr fun e _ => ?_
  rw [List.map_map]
  rfl

variable {registry : Table Handle} {given shared : Source} {o : Occurrence} {t : Term}

theorem pending?_record_eq_none (h : ∀ t, o.spec.equation = some t → t.isCompilable = false) :
    (o.record shared).pending? = none := by
  rw [Option.eq_none_iff_forall_ne_some]
  rintro ⟨p, t⟩ hpending
  obtain ⟨hp, -, ht, hcompilable⟩ := Record.pending?_eq_some.mp hpending
  obtain rfl := Content.structured.inj hp
  rw [h t ht] at hcompilable
  cases hcompilable

theorem pending?_record (h : o.spec.equation = some t) (ht : t.isCompilable = true) :
    (o.record shared).pending? = some (o.spec.payload shared o.indices, t) :=
  Record.pending?_eq_some.mpr ⟨rfl, rfl, h, ht⟩

end Occurrence

namespace EquationSystem

variable {s : EquationSystem} {given shared : Source} {o : Occurrence} {r : Record}
  {values : Assignment}

/-- Compiling the record of an instance compiles the difference of its sides. Where there is
nothing to compile, there are no sides either. -/
theorem compiles_record (h : s.Compiles given (o.record shared) r) :
    (o.difference? s.registry given shared = none ∧ r = o.record shared ∧
        ∀ lhs rhs, o.spec.equation ≠ some (.eq lhs rhs)) ∨
      ∃ c : Constraint, o.difference? s.registry given shared = some c.residual ∧
        r = (o.record shared).attach c := by
  rw [Compiles] at h
  by_cases hterm : ∃ t, o.spec.equation = some t ∧ t.isCompilable = true
  · obtain ⟨t, ht, hcompilable⟩ := hterm
    rw [Occurrence.pending?_record ht hcompilable] at h
    obtain ⟨lhs, rhs, left, right, c, rfl, hleft, hright, hresidual, rfl⟩ := h
    refine .inr ⟨c, ?_, rfl⟩
    have hdifference : o.difference s.registry given shared lhs rhs = .ok c.residual :=
      bind_eq_ok.mpr ⟨left, hleft, bind_eq_ok.mpr ⟨right, hright, hresidual⟩⟩
    rw [Occurrence.difference?, ht]
    exact congrArg Except.toOption hdifference
  · -- an equation with sides would be compilable
    have hnone : ∀ t, o.spec.equation = some t → t.isCompilable = false := by
      intro t ht
      exact Bool.eq_false_iff.mpr fun hcompilable => hterm ⟨t, ht, hcompilable⟩
    have hsides : ∀ lhs rhs, o.spec.equation ≠ some (.eq lhs rhs) := by
      intro lhs rhs heq
      cases hnone _ heq
    rw [Occurrence.pending?_record_eq_none hnone] at h
    refine .inl ⟨?_, h, hsides⟩
    rw [Occurrence.difference?]
    split
    · next lhs rhs heq => exact absurd heq (hsides lhs rhs)
    · rfl

theorem carriesCompiled_of_compiles (h : s.Compiles given (o.record shared) r) :
    r.CarriesCompiled := by
  rcases compiles_record h with ⟨-, rfl, -⟩ | ⟨c, -, rfl⟩
  · intro v hv
    cases hv
  · intro v hv
    cases hv

theorem carriesCompiled_of_forall₂ {instances : List Occurrence} {records : List Record}
    (h : List.Forall₂ (s.Compiles given) (instances.map (Occurrence.record shared)) records) :
    ∀ r ∈ records, r.CarriesCompiled := by
  intro r hr
  obtain ⟨_, hmem, hrecord⟩ := exists_of_forall₂ h.flip hr
  obtain ⟨o, -, rfl⟩ := List.mem_map.mp hmem
  exact carriesCompiled_of_compiles hrecord

/-- A measured record holds the value of the difference. -/
theorem entryOf_measured (h : s.Compiles given (o.record shared) r) (values : Assignment) :
    entryOf (r.measured values) =
      (o.residual? s.registry given shared values).map o.entry := by
  rw [Occurrence.residual?]
  rcases compiles_record h with ⟨hnone, rfl, -⟩ | ⟨c, hc, rfl⟩
  · rw [hnone]
    rfl
  · rw [hc]
    rfl

/-- If the record of an instance is readable, the difference is compiled, and its value is a
double wherever it has one. -/
theorem difference?_of_readable (h : s.Compiles given (o.record shared) r)
    (hreadable : r.isReadable values = true) {lhs rhs : Term}
    (ho : o.spec.equation = some (.eq lhs rhs)) :
    ∃ e, o.difference? s.registry given shared = some e ∧
      ∀ n, e.eval values = some n → ∃ x, n.toReal = .ok x := by
  rcases compiles_record h with ⟨-, -, hsides⟩ | ⟨c, hc, rfl⟩
  · exact absurd ho (hsides lhs rhs)
  · refine ⟨c.residual, hc, fun n hn => Number.toReal_of_isReadable ?_⟩
    rw [Record.isReadable, Record.compiled?_attach rfl, Option.bind_some, hn] at hreadable
    exact hreadable

/-- The residuals of records that were compiled and measured. -/
theorem residuals_of_measured {instances : List Occurrence} {records : List Record}
    (h : List.Forall₂ (s.Compiles given) (instances.map (Occurrence.record shared)) records) :
    (records.map (Record.measured values)).filterMap entryOf =
      instances.filterMap fun o => (o.residual? s.registry given shared values).map o.entry := by
  induction instances generalizing records with
  | nil =>
    obtain rfl := List.forall₂_nil_left_iff.mp h
    rfl
  | cons o rest ih =>
    obtain ⟨r, records', hr, hrest, rfl⟩ := List.forall₂_cons_left_iff.mp h
    rw [List.map_cons, List.filterMap_cons, List.filterMap_cons, entryOf_measured hr, ih hrest]

end EquationSystem

end Equilibrium

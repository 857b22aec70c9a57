/-
Residuals of a system and how they are ranked.

An entry is the residual of one equation instance. Entries are ranked by the size of the residual,
that is its absolute value, with the greatest first; entries of one size keep the order of their
registration.

A double is placed by its bit pattern: without the sign bit, the patterns of numbers are ordered as
their absolute values are. What is not a number has no place in this order; such a residual is the
worst one in a summary, and comes last in a ranking.

Main statements:
* `EquationSystem.ranking_perm` - a ranking holds every residual, each with its position.
-/
import Equilibrium.EquationSystem

namespace Equilibrium

/-- The residual of an equation instance. -/
structure ResidualEntry where
  tag : String
  block : String
  indices : List String
  residual : Float

/-- A summary of residuals. -/
structure ResidualSummary where
  count : Nat
  /-- The greatest size, zero if there are no residuals. -/
  maxAbs : Float
  /-- The first entry of that size. -/
  worst : Option ResidualEntry
  /-- The number of residuals with a size strictly above the tolerance. -/
  aboveTol : Nat

/-- A row of a ranking: an entry and its position among all entries. -/
structure ResidualRow where
  entry : ResidualEntry
  order : Nat

namespace ResidualEntry

/-- The label of the equation instance. -/
def label (e : ResidualEntry) : String := Record.labelOf e.block e.tag e.indices

/-- The absolute value of the residual. -/
def size (e : ResidualEntry) : Float := e.residual.abs

/-- The place of the size among all sizes. -/
def rank (e : ResidualEntry) : Nat := e.residual.toBits.toNat % Nat.pow 2 63

/-- Whether the residual is not a number. -/
def isNaN (e : ResidualEntry) : Bool := e.residual.isNaN

/-- Whether the size is strictly above a tolerance. -/
def isAbove (tol : Float) (e : ResidualEntry) : Bool := e.size > tol

/-- Whether an entry goes before or beside another one in a ranking. -/
def goesFirst (a b : ResidualEntry) : Bool :=
  if b.isNaN then true else if a.isNaN then false else b.rank ≤ a.rank

/-- Whether an entry is worse than another one: what is not a number is worst of all. -/
def isWorse (a b : ResidualEntry) : Bool :=
  if b.isNaN then false else if a.isNaN then true else b.rank < a.rank

theorem goesFirst_total (a b : ResidualEntry) : (a.goesFirst b || b.goesFirst a) = true := by
  unfold goesFirst
  cases ha : a.isNaN <;> cases hb : b.isNaN <;> simp
  exact Nat.le_total _ _

theorem goesFirst_trans (a b c : ResidualEntry) (h1 : a.goesFirst b = true)
    (h2 : b.goesFirst c = true) : a.goesFirst c = true := by
  unfold goesFirst at *
  cases ha : a.isNaN <;> cases hb : b.isNaN <;> cases hc : c.isNaN <;> simp_all
  exact Nat.le_trans h2 h1

end ResidualEntry

namespace EquationSystem

/-- The entry of a record, if it has a residual. -/
def entryOf (r : Record) : Option ResidualEntry :=
  match r.structured? with
  | some p => p.residual.map fun x => ⟨r.tag, r.block, p.indices, x⟩
  | none => none

/-- The residuals of a system, in the order of its records. -/
def residuals (s : EquationSystem) : List ResidualEntry := s.equations.filterMap entryOf

/-- The worst entry of a list, the first one of those that are equally bad. -/
def worstOf : List ResidualEntry → Option ResidualEntry
  | [] => none
  | e :: rest => some (rest.foldl (fun worst e => if e.isWorse worst then e else worst) e)

/-- Summarizes the residuals of a system. -/
def summarizeResiduals (s : EquationSystem) (tol : Float) : ResidualSummary :=
  let entries := s.residuals
  let worst := worstOf entries
  { count := entries.length
    maxAbs := (worst.map ResidualEntry.size).getD 0.0
    worst := worst
    aboveTol := entries.countP (·.isAbove tol) }

/-- The residuals with their positions. -/
def residualRows (s : EquationSystem) : List ResidualRow :=
  s.residuals.mapIdx fun n e => ⟨e, n⟩

/-- The residuals, the worst first. -/
def ranking (s : EquationSystem) : List ResidualRow :=
  s.residualRows.mergeSort fun a b => a.entry.goesFirst b.entry

/-- The number of rows that a count asks for: a negative count leaves out rows at the end. -/
def rowCount (length : Nat) (n : Int) : Nat :=
  if n < 0 then (n + Int.ofNat length).toNat else n.toNat

/-- The first rows of the ranking. -/
def worstResiduals (s : EquationSystem) (n : Int) : List ResidualRow :=
  s.ranking.take (rowCount s.ranking.length n)

/-- A ranking holds every residual, each with its position. -/
theorem ranking_perm (s : EquationSystem) : s.ranking.Perm s.residualRows :=
  List.mergeSort_perm _ _

end EquationSystem

end Equilibrium

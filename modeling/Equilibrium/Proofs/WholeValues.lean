/-
Whole numbers among values, variables and parameters.

* `Handle.eval_of_whole?` - a handle that holds a whole number is an expression with that value;
* `Table.HoldsWhole` - a registry all of whose handles hold whole numbers;
* `Source.holdsWhole_tables` - a mapping with whole entries, keyed by tuples or elements or nested
  to any depth, gives whole numbers and mappings to whole numbers, and nothing else.
-/
import Equilibrium.Compilation
import Equilibrium.Expression.Evaluation

namespace Equilibrium

/-- The whole number that a number is. -/
def Number.whole? : Number → Option Int
  | int n => some n
  | _ => none

/-- The whole number that a value is. -/
def Value.whole? : Value → Option Int
  | number n => n.whole?
  | _ => Option.none

/-- The whole number that a handle holds: a variable by its value, anything else by itself. -/
def Handle.whole? (values : Assignment) : Handle → Option Int
  | ofVar id => (values id).bind Number.whole?
  | foreign v => v.whole?

theorem Number.eq_int_of_whole? {a : Number} {n : Int} (h : a.whole? = some n) : a = int n := by
  cases a with
  | int k => exact congrArg int (Option.some.inj h)
  | _ => simp [whole?] at h

theorem Value.eq_int_of_whole? {v : Value} {n : Int} (h : v.whole? = some n) :
    v = number (.int n) := by
  cases v with
  | number a => rw [Number.eq_int_of_whole? h]
  | _ => simp [whole?] at h

/-- A handle that holds a whole number is an expression with that value. -/
theorem Handle.eval_of_whole? {values : Assignment} {h : Handle} {n : Int}
    (hn : h.whole? values = some n) : h.toExpression.eval values = some (.int n) := by
  cases h with
  | ofVar id =>
    obtain ⟨a, ha, hw⟩ := Option.bind_eq_some_iff.mp hn
    rw [Number.eq_int_of_whole? hw] at ha
    exact ha
  | foreign v =>
    rw [Value.eq_int_of_whole? hn]
    rfl

/-- All registered handles hold whole numbers where the variables have the given values. -/
def Table.HoldsWhole (registry : Table Handle) (values : Assignment) : Prop :=
  ∀ name h, registry.get? name = some h → ∃ n, h.whole? values = some n

/-- It suffices that every entry of the registry holds a whole number. -/
theorem Table.holdsWhole_of_entries {registry : Table Handle} {values : Assignment}
    (h : ∀ entry ∈ registry.entries, (entry.2.whole? values).isSome = true) :
    registry.HoldsWhole values := by
  intro name handle hget
  exact Option.isSome_iff_exists.mp (h _ (mem_of_get? hget))

namespace Value

mutual

/-- Whether a value is a whole number, or a mapping down to whole numbers. -/
def isWholeTable : Value → Bool
  | number (.int _) => true
  | map rows => allWhole rows
  | _ => false
termination_by structural v => v

/-- Whether all entries of a mapping are whole numbers, or mappings down to whole numbers. -/
def allWhole : List (Key × Value) → Bool
  | [] => true
  | (_, v) :: rest => v.isWholeTable && allWhole rest
termination_by structural rows => rows

end

theorem isWholeTable_of_find {key : Key} {rows : List (Key × Value)} {v : Value}
    (hrows : allWhole rows = true) (h : find key rows = some v) : v.isWholeTable = true := by
  induction rows with
  | nil => simp [find] at h
  | cons row rest ih =>
    obtain ⟨k, w⟩ := row
    rw [allWhole, Bool.and_eq_true] at hrows
    rw [find_cons] at h
    split at h
    · rw [← Option.some.inj h]
      exact hrows.1
    · exact ih hrows.2 h

end Value

namespace Source

/-- Whatever the source gives is a whole number, or a mapping down to whole numbers. -/
def HoldsWhole (params : Source) : Prop :=
  ∀ name indices v, params.get name indices = .ok v → v.isWholeTable = true

theorem isWholeTable_of_walk {v w : Value} {indices : List String} (hv : v.isWholeTable = true)
    (h : walk v indices = some w) : w.isWholeTable = true := by
  induction indices generalizing v with
  | nil =>
    rw [walk] at h
    exact Option.some.inj h ▸ hv
  | cons i rest ih =>
    cases v with
    | map rows =>
      rw [walk] at h
      split at h
      · next u hu => exact ih (Value.isWholeTable_of_find hv hu) h
      · simp at h
    | _ => simp [walk] at h

/-- A mapping whose entries are whole numbers, at whatever depth, gives nothing else. -/
theorem holdsWhole_tables {entries : List (Key × Value)} (h : Value.allWhole entries = true) :
    (tables entries).HoldsWhole := by
  intro name indices v hv
  rw [get] at hv
  split at hv
  · simp at hv
  · next entry hentry =>
    have hwhole := Value.isWholeTable_of_find h hentry
    split at hv
    · cases hv
      exact hwhole
    · split at hv
      · next rows =>
        split at hv
        · next u hu =>
          cases hv
          rw [lookup] at hu
          split at hu
          · next w hw =>
            rw [← Option.some.inj hu]
            exact Value.isWholeTable_of_find hwhole hw
          · exact isWholeTable_of_walk hwhole hu
        · simp at hv
      · simp at hv

end Source

end Equilibrium

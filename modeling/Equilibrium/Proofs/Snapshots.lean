/-
Snapshots as tables of what is found.

A snapshot goes through the registry and enters what it finds under the name where it found it. So
what it holds under a name depends on the variable that this name stands for, and on nothing else,
as long as every value on the way can be read as a double:

* `Table.gather`, `Table.get?_gather` - the table of what is found in some entries, and its entries;
* `EquationSystem.Readable` - the values of the registered variables are read as doubles;
* `EquationSystem.snapshot_eq` - then a snapshot is the table of the finite values;
* `EquationSystem.snapshot_of_not_readable` - otherwise there is none.
-/
import Equilibrium.Proofs.Assembly
import Equilibrium.Proofs.Refresh
import Equilibrium.Snapshot

namespace Equilibrium

namespace Table

variable {α β : Type} {t : Table β} {name : String} {f : α → Option β}
  {entries : List (String × α)}

/-- Enters what was found under a name, if anything was. -/
def enter (t : Table β) (name : String) : Option β → Table β
  | some b => t.insert name b
  | none => t

theorem get?_enter (t : Table β) (name other : String) (found : Option β) :
    (t.enter name found).get? other =
      if other = name then found.or (t.get? name) else t.get? other := by
  cases found with
  | none =>
    by_cases h : other = name
    · rw [if_pos h, h, Option.none_or, enter]
    · rw [if_neg h, enter]
  | some b => rw [enter, get?_insert, Option.some_or]

theorem nodup_keys_enter (h : t.keys.Nodup) (found : Option β) :
    (t.enter name found).keys.Nodup := by
  cases found with
  | none => exact h
  | some b =>
    rw [enter]
    cases hc : t.contains name with
    | true => rwa [keys_insert_of_contains t b hc]
    | false =>
      have hnew : name ∉ t.keys := by
        rw [← contains_iff_mem_keys, hc]
        exact Bool.false_ne_true
      rw [keys_insert_of_not_contains t b hc]
      exact List.nodup_append.mpr ⟨h, List.nodup_singleton name, by
        rintro a ha b (_ | ⟨_, hb⟩) rfl
        · exact hnew ha
        · cases hb⟩

/-- Goes through some entries and enters what is found in each of them under its name. -/
def gatherFrom (t : Table β) (f : α → Option β) (entries : List (String × α)) : Table β :=
  entries.foldl (fun t e => t.enter e.1 (f e.2)) t

/-- The table of what is found in some entries. -/
def gather (f : α → Option β) (entries : List (String × α)) : Table β := gatherFrom empty f entries

theorem seek_eq_none (h : name ∉ entries.map Prod.fst) : seek name entries = none := by
  cases hget : seek name entries with
  | none => rfl
  | some a =>
    have hmem : (name, a) ∈ entries := mem_of_get? (t := ⟨entries⟩) hget
    exact absurd (List.mem_map.mpr ⟨_, hmem, rfl⟩) h

theorem get?_gatherFrom (hnames : (entries.map Prod.fst).Nodup) :
    (gatherFrom t f entries).get? name = ((seek name entries).bind f).or (t.get? name) := by
  induction entries generalizing t with
  | nil => rfl
  | cons entry rest ih =>
    obtain ⟨n, a⟩ := entry
    obtain ⟨hn, hrest⟩ := List.nodup_cons.mp hnames
    have hstep : (gatherFrom t f ((n, a) :: rest)).get? name =
        ((seek name rest).bind f).or ((t.enter n (f a)).get? name) := ih hrest
    rw [hstep, get?_enter, seek]
    by_cases hname : name = n
    · -- no later entry has this name
      rw [if_pos hname, if_pos hname, hname, seek_eq_none hn]
      rfl
    · rw [if_neg hname, if_neg hname]

/-- Under a name is what is found in the entry with that name. -/
theorem get?_gather (hnames : (entries.map Prod.fst).Nodup) :
    (gather f entries).get? name = (seek name entries).bind f := by
  rw [gather, get?_gatherFrom hnames, get?_empty, Option.or_none]

theorem nodup_keys_gather : (gather f entries).keys.Nodup := by
  have hfrom : ∀ t : Table β, t.keys.Nodup → (gatherFrom t f entries).keys.Nodup := by
    induction entries with
    | nil => exact fun t ht => ht
    | cons entry rest ih => exact fun t ht => ih _ (nodup_keys_enter ht _)
  exact hfrom empty List.nodup_nil

end Table

/-- The value of a variable as a double, where it has a value and the value is one. -/
def Variable.current? (v : Variable) : Option Float := v.value.bind fun n => n.toReal.toOption

/-- What a snapshot holds of a variable. -/
def Variable.finite? (v : Variable) : Option Float := v.current?.filter Float.isFinite

namespace EquationSystem

variable {s : EquationSystem} {entries : List (String × Handle)}

/-- What is found in the variable that a handle stands for. -/
def found (s : EquationSystem) (f : Variable → Option Float) : Handle → Option Float
  | .ofVar id => (s.vars[id]?).bind f
  | .foreign _ => none

/-- The value of the variable that a handle stands for, if there is one, is read as a double. -/
def ReadsHandle (s : EquationSystem) (h : Handle) : Prop :=
  ∀ id n, h = .ofVar id → s.assignment id = some n → n.isReadable = true

/-- The values of all registered variables are read as doubles. -/
def Readable (s : EquationSystem) : Prop := ∀ e ∈ s.registry.entries, s.ReadsHandle e.2

theorem currentValue_of_reads {id : VarId} (h : s.ReadsHandle (.ofVar id)) :
    s.currentValue id = .ok ((s.vars[id]?).bind Variable.current?) := by
  rw [currentValue]
  cases hvalue : s.assignment id with
  | none =>
    rw [assignment] at hvalue
    cases hv : s.vars[id]? with
    | none => rfl
    | some v =>
      rw [hv, Option.bind_some] at hvalue
      rw [Option.bind_some, Variable.current?, hvalue, Option.bind_none]
  | some n =>
    obtain ⟨x, hx⟩ := Number.toReal_of_isReadable (h id n rfl hvalue)
    obtain ⟨v, hv, hn⟩ := Option.bind_eq_some_iff.mp hvalue
    rw [hv, Option.bind_some, Variable.current?, hn, Option.bind_some]
    show n.toReal.map some = _
    rw [hx]
    rfl

theorem currentValue_of_not_reads {id : VarId} {n : Number} (hn : s.assignment id = some n)
    (hunreadable : n.isReadable = false) : s.currentValue id = .error n.refusal := by
  rw [currentValue, hn]
  show n.toReal.map some = _
  rw [Number.toReal_of_not_isReadable hunreadable]
  rfl

theorem addToSnapshot_of_reads {h : Handle} (hreads : s.ReadsHandle h) (t : Table Float)
    (name : String) :
    s.addToSnapshot t (name, h) = .ok (t.enter name (s.found Variable.finite? h)) := by
  cases h with
  | foreign v => rfl
  | ofVar id =>
    rw [addToSnapshot, currentValue_of_reads hreads, found]
    cases s.vars[id]? with
    | none => rfl
    | some v =>
      show Except.bind (.ok v.current?) _ = Except.ok (t.enter name v.finite?)
      rw [Variable.finite?]
      cases v.current? with
      | none => rfl
      | some x =>
        show Except.ok (if x.isFinite then t.insert name x else t) = _
        by_cases hx : x.isFinite = true
        · rw [if_pos hx, Option.filter_some, if_pos hx]
          rfl
        · rw [if_neg hx, Option.filter_some, if_neg hx]
          rfl

/-- A snapshot of readable variables holds their finite values, each under its registered names. -/
theorem snapshot_eq (h : s.Readable) :
    s.snapshot = .ok (Table.gather (s.found Variable.finite?) s.registry.entries) := by
  have hfold : ∀ (entries : List (String × Handle)) (t : Table Float),
      (∀ e ∈ entries, s.ReadsHandle e.2) →
      entries.foldlM s.addToSnapshot t =
        .ok (Table.gatherFrom t (s.found Variable.finite?) entries) := by
    intro entries
    induction entries with
    | nil => exact fun t _ => rfl
    | cons e rest ih =>
      intro t hall
      obtain ⟨he, hrest⟩ := List.forall_mem_cons.mp hall
      rw [List.foldlM_cons, addToSnapshot_of_reads he]
      exact ih _ hrest
  exact hfold _ _ h

/-- The first value that is not read as a double ends a snapshot. -/
theorem snapshot_of_not_readable (h : ¬ s.Readable) :
    ∃ id n, (∃ name, (name, Handle.ofVar id) ∈ s.registry.entries) ∧ s.assignment id = some n ∧
      n.isReadable = false ∧ s.snapshot = .error n.refusal := by
  have hfold : ∀ (entries : List (String × Handle)) (t : Table Float),
      ¬ (∀ e ∈ entries, s.ReadsHandle e.2) →
      ∃ id n, (∃ name, (name, Handle.ofVar id) ∈ entries) ∧ s.assignment id = some n ∧
        n.isReadable = false ∧ entries.foldlM s.addToSnapshot t = .error n.refusal := by
    intro entries
    induction entries with
    | nil => exact fun t hnot => absurd (List.forall_mem_nil _) hnot
    | cons e rest ih =>
      intro t hnot
      obtain ⟨name, handle⟩ := e
      rw [List.foldlM_cons]
      by_cases hreads : s.ReadsHandle handle
      · have hrest : ¬ ∀ e ∈ rest, s.ReadsHandle e.2 := fun hall =>
          hnot (List.forall_mem_cons.mpr ⟨hreads, hall⟩)
        obtain ⟨id, n, ⟨other, hmem⟩, hn, hunreadable, herror⟩ := ih _ hrest
        rw [addToSnapshot_of_reads hreads]
        exact ⟨id, n, ⟨other, List.mem_cons_of_mem _ hmem⟩, hn, hunreadable, herror⟩
      · obtain ⟨id, n, rfl, hn, hunreadable⟩ : ∃ id n, handle = .ofVar id ∧
            s.assignment id = some n ∧ n.isReadable = false := by
          simpa [ReadsHandle] using hreads
        refine ⟨id, n, ⟨name, List.mem_cons_self⟩, hn, hunreadable, ?_⟩
        rw [addToSnapshot, currentValue_of_not_reads hn hunreadable]
        rfl
  exact hfold _ _ h

end EquationSystem

end Equilibrium

/-
Warm starts from the state of another system.

The state of a system holds its finite values, the bounds of the variables with a value, and the
fixed values, each in a table of its own. A warm start goes through these tables one after the other
and writes to the variables that are registered under their names. In a system with a plain variable
under each name nothing else is written, so its variables become those of the first system. What is
not carried over are the bounds of a variable without a value, since the state leaves it out.

* `State.ofSystem_eq` - a state as four tables of what is found;
* `State.varNamed?_applyEntries`, `State.varNamed?_apply` - what a warm start writes under a name;
* `EquationSystem.warmStart_restores` - values, fixed flags and states are restored, and bounds
  exactly for the variables with a value;
* `EquationSystem.warmStart_loses_bounds` - a bounded variable without a value.
-/
import Equilibrium.Proofs.Effects
import Equilibrium.Proofs.Snapshots

namespace Equilibrium

open Float.Model

/-! ### Portable variables -/

theorem Binary.not_isInf_of_isFinite {x : Float} (h : x.isFinite = true) :
    x.isInf = false ∧ x.isNaN = false := by
  change x.toModel.unpack.isFinite = true at h
  show x.toModel.unpack.isInf = false ∧ x.toModel.unpack.isNaN = false
  generalize x.toModel.unpack = u at h ⊢
  cases u with
  | notANumber => cases h
  | infinity s => cases h
  | zero s => exact ⟨rfl, rfl⟩
  | finite s m e hm => exact ⟨rfl, rfl⟩

/-- Nothing, or a finite double. -/
def FiniteReal (n : Option Number) : Prop :=
  n = none ∨ ∃ x : Float, n = some (.real x) ∧ x.isFinite = true

/-- A number as a double, where it is one. -/
def double? (n : Option Number) : Option Float := n.bind fun n => n.toReal.toOption

theorem FiniteReal.filter_double? {n : Option Number} (h : FiniteReal n) :
    (double? n).filter Float.isFinite = double? n := by
  obtain rfl | ⟨x, rfl, hx⟩ := h
  · rfl
  · exact if_pos hx

theorem FiniteReal.readBound_eq {n : Option Number} (h : FiniteReal n) {harmless : Float → Bool}
    (hharmless : ∀ x, x.isInf = false → harmless x = false) :
    Variable.readBound harmless n = .ok n := by
  obtain rfl | ⟨x, rfl, hx⟩ := h
  · rfl
  · obtain ⟨hinf, hnan⟩ := Binary.not_isInf_of_isFinite hx
    rw [Variable.readBound, hharmless x hinf, hinf, hnan]
    rfl

theorem FiniteReal.boundValue_eq {n : Option Number} (h : FiniteReal n) :
    State.boundValue n = .ok (double? n) := by
  obtain rfl | ⟨x, rfl, -⟩ := h <;> rfl

namespace Variable

/-- A variable with a finite value or none, finite bounds or none, and a value if it is fixed. -/
structure Portable (v : Variable) : Prop where
  value : FiniteReal v.value
  lower : FiniteReal v.lower
  upper : FiniteReal v.upper
  fixed : v.fixed = true → v.value.isSome = true

/-- A variable without value and bounds that is not fixed. -/
structure Plain (v : Variable) : Prop where
  value : v.value = none
  lower : v.lower = none
  upper : v.upper = none
  fixed : v.fixed = false

/-- The lower bound in a state, which has none for a variable without a value. -/
def keptLower? (v : Variable) : Option Float := v.value.bind fun _ => double? v.lower

/-- The upper bound in a state. -/
def keptUpper? (v : Variable) : Option Float := v.value.bind fun _ => double? v.upper

/-- The fixed value in a state. -/
def keptFixed? (v : Variable) : Option Float := if v.fixed then v.current? else none

variable {v w : Variable}

theorem Portable.finite?_eq (h : v.Portable) : v.finite? = double? v.value :=
  h.value.filter_double?

theorem Portable.readLower_eq (h : v.Portable) : v.readLower = .ok v.lower :=
  h.lower.readBound_eq fun x hx => by rw [hx, Bool.false_and]

theorem Portable.readUpper_eq (h : v.Portable) : v.readUpper = .ok v.upper :=
  h.upper.readBound_eq fun x hx => by rw [hx, Bool.false_and]

theorem Plain.portable (h : w.Plain) : w.Portable :=
  ⟨.inl h.value, .inl h.lower, .inl h.upper, fun hfixed => by rw [h.fixed] at hfixed; cases hfixed⟩

end Variable

namespace EquationSystem

/-- The variable that a registered name stands for. -/
def varNamed? (s : EquationSystem) (name : String) : Option Variable :=
  (s.varId? name).bind fun id => s.vars[id]?

/-- Every name stands for one thing, and every registered variable is portable. -/
structure Portable (s : EquationSystem) : Prop where
  keys : s.registry.keys.Nodup
  portable : ∀ name v, s.varNamed? name = some v → v.Portable

variable {s : EquationSystem} {name : String} {h : Handle}

theorem varNamed?_of_mem (hkeys : s.registry.keys.Nodup) {id : VarId}
    (hmem : (name, Handle.ofVar id) ∈ s.registry.entries) : s.varNamed? name = s.vars[id]? := by
  have hget := (Table.get?_eq_some_iff hkeys).mpr hmem
  rw [varNamed?, varId?, hget]
  rfl

theorem Portable.of_mem (hs : s.Portable) {id : VarId} {v : Variable}
    (hmem : (name, Handle.ofVar id) ∈ s.registry.entries) (hv : s.vars[id]? = some v) :
    v.Portable :=
  hs.portable name v ((varNamed?_of_mem hs.keys hmem).trans hv)

theorem Portable.readable (hs : s.Portable) : s.Readable := by
  rintro ⟨name, handle⟩ hmem id n rfl hn
  obtain ⟨v, hv, hvalue⟩ := Option.bind_eq_some_iff.mp hn
  obtain hnone | ⟨x, hx, -⟩ := (hs.of_mem hmem hv).value
  · rw [hnone] at hvalue
    cases hvalue
  · rw [hx] at hvalue
    cases hvalue
    rfl

/-- In a table of what is found, under a name is what is found in the variable of that name. -/
theorem get?_gather_found (hkeys : s.registry.keys.Nodup) (f : Variable → Option Float) :
    (Table.gather (s.found f) s.registry.entries).get? name = (s.varNamed? name).bind f := by
  rw [Table.get?_gather hkeys, varNamed?, varId?, Table.get?]
  cases Table.seek name s.registry.entries with
  | none => rfl
  | some handle => cases handle <;> rfl

end EquationSystem

/-! ### The state of a system -/

namespace State

variable {s : EquationSystem}

/-- Goes through some handles and adds what is found in them to the four tables of a state. -/
def gatherFrom (state : State) (s : EquationSystem) (entries : List (String × Handle)) : State where
  start := state.start.gatherFrom (s.found Variable.finite?) entries
  lower := state.lower.gatherFrom (s.found Variable.keptLower?) entries
  upper := state.upper.gatherFrom (s.found Variable.keptUpper?) entries
  fixed := state.fixed.gatherFrom (s.found Variable.keptFixed?) entries

theorem addFinite_eq (t : Table Float) (name : String) (found : Option Float) :
    addFinite t name found = t.enter name (found.filter Float.isFinite) := by
  cases found with
  | none => rfl
  | some x =>
    rw [addFinite, Option.filter_some]
    split <;> rfl

theorem addVariable_of_value {id : VarId} {v : Variable} {x : Float} {lower upper : Option Float}
    (hx : s.currentValue id = .ok (some x)) (hv : s.vars[id]? = some v)
    (hlower : v.readLower.bind boundValue = .ok lower)
    (hupper : v.readUpper.bind boundValue = .ok upper) (state : State) (name : String) :
    addVariable s state (name, .ofVar id) = .ok ⟨addFinite state.start name (some x),
      addFinite state.lower name lower, addFinite state.upper name upper,
      if v.fixed then state.fixed.insert name x else state.fixed⟩ := by
  obtain ⟨l, hl, hlower⟩ := bind_eq_ok.mp hlower
  obtain ⟨u, hu, hupper⟩ := bind_eq_ok.mp hupper
  rw [addVariable, hx, hv]
  simp [hl, hlower, hu, hupper, bind, Except.bind, pure, Except.pure]

theorem addVariable_of_portable {h : Handle} (hreads : s.ReadsHandle h)
    (hportable : ∀ id v, h = .ofVar id → s.vars[id]? = some v → v.Portable) (state : State)
    (name : String) : addVariable s state (name, h) = .ok (state.gatherFrom s [(name, h)]) := by
  cases h with
  | foreign v => rfl
  | ofVar id =>
    have hgather : state.gatherFrom s [(name, .ofVar id)] =
        ⟨state.start.enter name ((s.vars[id]?).bind Variable.finite?),
          state.lower.enter name ((s.vars[id]?).bind Variable.keptLower?),
          state.upper.enter name ((s.vars[id]?).bind Variable.keptUpper?),
          state.fixed.enter name ((s.vars[id]?).bind Variable.keptFixed?)⟩ := rfl
    have hcurrent := EquationSystem.currentValue_of_reads hreads
    rw [hgather]
    cases hv : s.vars[id]? with
    | none =>
      rw [addVariable, hcurrent, hv]
      rfl
    | some v =>
      have hport := hportable id v rfl hv
      simp only [Option.bind_some, Variable.keptLower?, Variable.keptUpper?, Variable.keptFixed?,
        hport.finite?_eq, Variable.current?]
      rw [hv, Option.bind_some, Variable.current?] at hcurrent
      obtain hvalue | ⟨x, hvalue, hx⟩ := hport.value
      · -- a variable without a value is left out
        rw [hvalue] at hcurrent ⊢
        rw [addVariable, hcurrent]
        cases v.fixed <;> rfl
      · rw [hvalue] at hcurrent ⊢
        have hlower : v.readLower.bind boundValue = .ok (double? v.lower) := by
          rw [hport.readLower_eq]
          exact hport.lower.boundValue_eq
        have hupper : v.readUpper.bind boundValue = .ok (double? v.upper) := by
          rw [hport.readUpper_eq]
          exact hport.upper.boundValue_eq
        rw [addVariable_of_value hcurrent hv hlower hupper, addFinite_eq, addFinite_eq,
          addFinite_eq, hport.lower.filter_double?, hport.upper.filter_double?,
          Option.filter_some, if_pos hx]
        cases v.fixed <;> rfl

theorem foldlM_addVariable {entries : List (String × Handle)}
    (hreads : ∀ e ∈ entries, s.ReadsHandle e.2)
    (hportable : ∀ e ∈ entries, ∀ id v, e.2 = .ofVar id → s.vars[id]? = some v → v.Portable)
    (state : State) : entries.foldlM (addVariable s) state = .ok (state.gatherFrom s entries) := by
  induction entries generalizing state with
  | nil => rfl
  | cons e rest ih =>
    obtain ⟨he, hrest⟩ := List.forall_mem_cons.mp hreads
    obtain ⟨hpe, hprest⟩ := List.forall_mem_cons.mp hportable
    rw [List.foldlM_cons, addVariable_of_portable he hpe]
    exact ih hrest hprest _

/-- The state of a portable system holds what is found in its variables. -/
theorem ofSystem_eq (hs : s.Portable) :
    ofSystem s = .ok (gatherFrom {} s s.registry.entries) := by
  refine foldlM_addVariable hs.readable (fun e hmem id v he hv => ?_) {}
  obtain ⟨name, handle⟩ := e
  obtain rfl : handle = .ofVar id := he
  exact hs.of_mem hmem hv

/-! ### Applying a state -/

variable {change : Float → Variable → Variable} {id : VarId} {l : List (String × Float)}

theorem varId?_applyEntries (t : Table Float) (name : String) :
    (applyEntries change s t).varId? name = s.varId? name := by
  rw [EquationSystem.varId?, applyEntries_registry]
  rfl

/-- A single entry changes the variable that its name stands for. -/
theorem getElem?_applyEntry (e : String × Float) (id : VarId) :
    (applyEntries change s ⟨[e]⟩).vars[id]? =
      if s.varId? e.1 = some id then (s.vars[id]?).map (change e.2) else s.vars[id]? := by
  rw [applyEntries, Table.toList, List.foldl_cons, List.foldl_nil]
  cases s.varId? e.1 with
  | none => rfl
  | some other =>
    show (s.vars.modify other (change e.2))[id]? = _
    rw [List.getElem?_modify]
    by_cases h : other = id
    · rw [h, if_pos rfl]
      exact congrArg (fun f => (s.vars[id]?).map f) (funext fun v => if_pos rfl)
    · rw [if_neg fun hsome => h (Option.some.inj hsome)]
      exact (congrArg (fun f => (s.vars[id]?).map f) (funext fun v => if_neg h)).trans
        Option.map_id'

theorem getElem?_applyEntries_of_not (h : ∀ e ∈ l, s.varId? e.1 ≠ some id) :
    (applyEntries change s ⟨l⟩).vars[id]? = s.vars[id]? := by
  induction l generalizing s with
  | nil => rfl
  | cons e rest ih =>
    obtain ⟨he, hrest⟩ := List.forall_mem_cons.mp h
    have hstep : applyEntries change s ⟨e :: rest⟩ =
        applyEntries change (applyEntries change s ⟨[e]⟩) ⟨rest⟩ := rfl
    rw [hstep, ih, getElem?_applyEntry, if_neg he]
    intro a ha
    rw [varId?_applyEntries]
    exact hrest a ha

/-- Entries that agree on a variable change it once. -/
theorem getElem?_applyEntries {x : Float}
    (hidem : ∀ v, change x (change x v) = change x v)
    (hagree : ∀ e ∈ l, s.varId? e.1 = some id → e.2 = x)
    (hsome : ∃ e ∈ l, s.varId? e.1 = some id) :
    (applyEntries change s ⟨l⟩).vars[id]? = (s.vars[id]?).map (change x) := by
  induction l generalizing s with
  | nil =>
    obtain ⟨e, he, -⟩ := hsome
    cases he
  | cons e rest ih =>
    obtain ⟨he, hrest⟩ := List.forall_mem_cons.mp hagree
    have hstep : applyEntries change s ⟨e :: rest⟩ =
        applyEntries change (applyEntries change s ⟨[e]⟩) ⟨rest⟩ := rfl
    have hfirst : (applyEntries change s ⟨[e]⟩).vars[id]? = _ := getElem?_applyEntry e id
    have hsame : ∀ name, (applyEntries change s ⟨[e]⟩).varId? name = s.varId? name :=
      varId?_applyEntries ⟨[e]⟩
    have hrest' : ∀ a ∈ rest, (applyEntries change s ⟨[e]⟩).varId? a.1 = some id → a.2 = x := by
      intro a ha hid
      exact hrest a ha ((hsame a.1).symm.trans hid)
    rw [hstep]
    by_cases hlater : ∃ a ∈ rest, (applyEntries change s ⟨[e]⟩).varId? a.1 = some id
    · rw [ih hrest' hlater, hfirst]
      split
      · next hid =>
        rw [he hid, Option.map_map]
        exact congrArg (fun f => (s.vars[id]?).map f) (funext hidem)
      · rfl
    · have hnone : ∀ a ∈ rest, (applyEntries change s ⟨[e]⟩).varId? a.1 ≠ some id := fun a ha hid =>
        hlater ⟨a, ha, hid⟩
      obtain ⟨a, ha, hid⟩ := hsome
      have hid : s.varId? e.1 = some id := by
        obtain _ | ⟨_, ha⟩ := ha
        · exact hid
        · exact absurd ((hsame a.1).trans hid) (hnone a ha)
      rw [getElem?_applyEntries_of_not hnone, hfirst, if_pos hid, he hid]

/-- What is written under a name is what a table holds there, as long as the other names of the
same variable have the same entry. -/
theorem varNamed?_applyEntries {t : Table Float} {name : String} (hkeys : t.keys.Nodup)
    (hidem : ∀ x v, change x (change x v) = change x v)
    (hsame : ∀ other id, s.varId? name = some id → s.varId? other = some id →
      t.get? other = t.get? name) :
    (applyEntries change s t).varNamed? name =
      (s.varNamed? name).map fun v => (t.get? name).elim v fun x => change x v := by
  rw [EquationSystem.varNamed?, EquationSystem.varNamed?, varId?_applyEntries]
  cases hid : s.varId? name with
  | none => rfl
  | some id =>
    show (applyEntries change s ⟨t.entries⟩).vars[id]? = (s.vars[id]?).map _
    have hagree : ∀ e ∈ t.entries, s.varId? e.1 = some id → t.get? name = some e.2 := by
      intro e he hother
      rw [← hsame e.1 id hid hother]
      exact (Table.get?_eq_some_iff hkeys).mpr he
    cases hget : t.get? name with
    | none =>
      rw [getElem?_applyEntries_of_not]
      · exact Option.map_id'.symm
      · intro e he hother
        have := hagree e he hother
        rw [hget] at this
        cases this
    | some x =>
      refine getElem?_applyEntries (hidem x) (fun e he hother => ?_)
        ⟨(name, x), Table.mem_of_get? hget, hid⟩
      have := hagree e he hother
      rw [hget] at this
      exact (Option.some.inj this).symm

/-- What a state makes of a variable that is registered under a name. -/
def fill (state : State) (name : String) (w : Variable) : Variable :=
  let w := (state.start.get? name).elim w fun x => { w with value := some (.real x) }
  let w := (state.lower.get? name).elim w fun x => { w with lower := some (.real x) }
  let w := (state.upper.get? name).elim w fun x => { w with upper := some (.real x) }
  (state.fixed.get? name).elim w fun x => w.fix (some (.real x))

/-- The tables of a state have no name twice. -/
structure Distinct (state : State) : Prop where
  start : state.start.keys.Nodup
  lower : state.lower.keys.Nodup
  upper : state.upper.keys.Nodup
  fixed : state.fixed.keys.Nodup

/-- Two names have the same entries in a state. -/
def SameEntries (state : State) (name other : String) : Prop :=
  state.start.get? other = state.start.get? name ∧ state.lower.get? other = state.lower.get? name ∧
    state.upper.get? other = state.upper.get? name ∧
    state.fixed.get? other = state.fixed.get? name

/-- Two states have the same entries in each of their tables. -/
def Agrees (a b : State) : Prop :=
  ∀ name, a.start.get? name = b.start.get? name ∧ a.lower.get? name = b.lower.get? name ∧
    a.upper.get? name = b.upper.get? name ∧ a.fixed.get? name = b.fixed.get? name

theorem varNamed?_apply {state : State} {name : String} (hdistinct : state.Distinct)
    (hsame : ∀ other id, s.varId? name = some id → s.varId? other = some id →
      state.SameEntries name other) :
    (state.apply s).varNamed? name = (s.varNamed? name).map (state.fill name) := by
  rw [apply, varNamed?_applyEntries hdistinct.fixed, varNamed?_applyEntries hdistinct.upper,
    varNamed?_applyEntries hdistinct.lower, varNamed?_applyEntries hdistinct.start,
    Option.map_map, Option.map_map, Option.map_map]
  · rfl
  -- each change can be made twice, and no change moves a name
  all_goals first
    | exact fun _ _ => rfl
    | intro other id hname hother
      obtain ⟨hstart, hlower, hupper, hfixed⟩ := hsame other id
        (by simpa only [varId?_applyEntries] using hname)
        (by simpa only [varId?_applyEntries] using hother)
      assumption

end State

/-! ### Warm starts -/

namespace Variable

variable {v w : Variable}

/-- A variable with the value of another one, its fixed flag, and its bounds if it has a value. -/
def resumed (w v : Variable) : Variable :=
  ⟨w.name, v.value, v.fixed, v.value.bind fun _ => v.lower, v.value.bind fun _ => v.upper⟩

theorem Portable.resumed (h : v.Portable) (w : Variable) : (w.resumed v).Portable := by
  refine ⟨h.value, ?_, ?_, h.fixed⟩
  · show FiniteReal (v.value.bind fun _ => v.lower)
    cases v.value with
    | none => exact .inl rfl
    | some n => exact h.lower
  · show FiniteReal (v.value.bind fun _ => v.upper)
    cases v.value with
    | none => exact .inl rfl
    | some n => exact h.upper

/-- A state holds of a resumed variable what it holds of the other one. -/
theorem found_resumed (w v : Variable) :
    (w.resumed v).finite? = v.finite? ∧ (w.resumed v).keptLower? = v.keptLower? ∧
      (w.resumed v).keptUpper? = v.keptUpper? ∧ (w.resumed v).keptFixed? = v.keptFixed? := by
  refine ⟨rfl, ?_, ?_, rfl⟩
  · show (v.value.bind fun _ => double? (v.value.bind fun _ => v.lower)) = v.keptLower?
    rw [keptLower?]
    cases v.value <;> rfl
  · show (v.value.bind fun _ => double? (v.value.bind fun _ => v.upper)) = v.keptUpper?
    rw [keptUpper?]
    cases v.value <;> rfl

/-- The bounds are those of the other variable exactly if it has a value or no bounds. -/
theorem bounds_resumed (w v : Variable) :
    ((w.resumed v).lower = v.lower ∧ (w.resumed v).upper = v.upper) ↔
      (v.value.isSome = true ∨ v.lower = none ∧ v.upper = none) := by
  show ((v.value.bind fun _ => v.lower) = v.lower ∧ (v.value.bind fun _ => v.upper) = v.upper) ↔ _
  cases v.value with
  | none => simp [eq_comm]
  | some n => simp

/-- Nothing is found in a plain variable. -/
theorem Plain.found_eq_none (h : w.Plain) :
    w.finite? = none ∧ w.keptLower? = none ∧ w.keptUpper? = none ∧ w.keptFixed? = none := by
  rw [finite?, current?, keptLower?, keptUpper?, keptFixed?, h.value, h.fixed]
  exact ⟨rfl, rfl, rfl, rfl⟩

end Variable

namespace EquationSystem

variable {s fresh : EquationSystem} {name : String} {v w : Variable}

/-- The state of a system of portable variables. -/
def stateOf (s : EquationSystem) : State := State.gatherFrom {} s s.registry.entries

theorem get?_stateOf (hkeys : s.registry.keys.Nodup) (name : String) :
    s.stateOf.start.get? name = (s.varNamed? name).bind Variable.finite? ∧
      s.stateOf.lower.get? name = (s.varNamed? name).bind Variable.keptLower? ∧
      s.stateOf.upper.get? name = (s.varNamed? name).bind Variable.keptUpper? ∧
      s.stateOf.fixed.get? name = (s.varNamed? name).bind Variable.keptFixed? :=
  ⟨get?_gather_found hkeys _, get?_gather_found hkeys _, get?_gather_found hkeys _,
    get?_gather_found hkeys _⟩

theorem distinct_stateOf (s : EquationSystem) : s.stateOf.Distinct :=
  ⟨Table.nodup_keys_gather, Table.nodup_keys_gather, Table.nodup_keys_gather,
    Table.nodup_keys_gather⟩

/-- A plain variable is filled to a resumed one. -/
theorem fill_stateOf (hs : s.Portable) (hv : s.varNamed? name = some v) (hw : w.Plain) :
    s.stateOf.fill name w = w.resumed v := by
  obtain ⟨hstart, hlower, hupper, hfixed⟩ := get?_stateOf hs.keys name
  have hport := hs.portable name v hv
  rw [hv, Option.bind_some] at hstart hlower hupper hfixed
  rw [State.fill, hstart, hlower, hupper, hfixed, hport.finite?_eq, Variable.keptLower?,
    Variable.keptUpper?, Variable.keptFixed?, Variable.current?]
  obtain ⟨n, value, fixed, lower, upper⟩ := v
  obtain ⟨m, noValue, notFixed, noLower, noUpper⟩ := w
  obtain ⟨rfl, rfl, rfl, rfl⟩ := hw
  obtain ⟨rfl | ⟨x, rfl, -⟩, rfl | ⟨y, rfl, -⟩, rfl | ⟨z, rfl, -⟩, hvalue⟩ := hport
  all_goals cases fixed
  all_goals first
    | rfl
    | cases hvalue rfl

/-- A plain variable is left as it is under a name that stands for no variable. -/
theorem fill_stateOf_of_none (hkeys : s.registry.keys.Nodup) (hv : s.varNamed? name = none) :
    s.stateOf.fill name w = w := by
  obtain ⟨hstart, hlower, hupper, hfixed⟩ := get?_stateOf hkeys name
  rw [hv, Option.bind_none] at hstart hlower hupper hfixed
  rw [State.fill, hstart, hlower, hupper, hfixed]
  rfl

/-- A system that waits for the state of another one: it has a plain variable under each name of a
variable, only plain variables, and no two names for one variable which stand for two there. -/
structure Awaits (fresh s : EquationSystem) : Prop where
  keys : fresh.registry.keys.Nodup
  plain : ∀ name w, fresh.varNamed? name = some w → w.Plain
  holds : ∀ name v, s.varNamed? name = some v → ∃ w, fresh.varNamed? name = some w
  aliases : ∀ name other id, fresh.varId? name = some id → fresh.varId? other = some id →
    s.varNamed? other = s.varNamed? name

theorem sameEntries_stateOf (hkeys : s.registry.keys.Nodup) {other : String}
    (h : s.varNamed? other = s.varNamed? name) : s.stateOf.SameEntries name other := by
  obtain ⟨hstart, hlower, hupper, hfixed⟩ := get?_stateOf hkeys name
  obtain ⟨hstart', hlower', hupper', hfixed'⟩ := get?_stateOf hkeys other
  rw [h] at hstart' hlower' hupper' hfixed'
  exact ⟨hstart'.trans hstart.symm, hlower'.trans hlower.symm, hupper'.trans hupper.symm,
    hfixed'.trans hfixed.symm⟩

/-- What is registered under a name after a warm start. -/
theorem varNamed?_apply_stateOf (hs : s.Portable) (hfresh : fresh.Awaits s) (name : String) :
    (s.stateOf.apply fresh).varNamed? name =
      (fresh.varNamed? name).map fun w => (s.varNamed? name).elim w w.resumed := by
  rw [State.varNamed?_apply (distinct_stateOf s) fun other id hname hother =>
    sameEntries_stateOf hs.keys (hfresh.aliases name other id hname hother)]
  cases hw : fresh.varNamed? name with
  | none => rfl
  | some w =>
    rw [Option.map_some, Option.map_some]
    cases hv : s.varNamed? name with
    | none => rw [fill_stateOf_of_none hs.keys hv, Option.elim_none]
    | some v => rw [fill_stateOf hs hv (hfresh.plain name w hw), Option.elim_some]

theorem portable_apply_stateOf (hs : s.Portable) (hfresh : fresh.Awaits s) :
    (s.stateOf.apply fresh).Portable := by
  refine ⟨by rw [State.apply_registry]; exact hfresh.keys, fun name u hu => ?_⟩
  rw [varNamed?_apply_stateOf hs hfresh] at hu
  obtain ⟨w, hw, rfl⟩ := Option.map_eq_some_iff.mp hu
  cases hv : s.varNamed? name with
  | none => exact (hfresh.plain name w hw).portable
  | some v => exact (hs.portable name v hv).resumed w

/-- The state after a warm start is the one from which it was made. -/
theorem agrees_apply_stateOf (hs : s.Portable) (hfresh : fresh.Awaits s) :
    (s.stateOf.apply fresh).stateOf.Agrees s.stateOf := by
  intro name
  obtain ⟨hstart, hlower, hupper, hfixed⟩ := get?_stateOf hs.keys name
  obtain ⟨hstart', hlower', hupper', hfixed'⟩ :=
    get?_stateOf (portable_apply_stateOf hs hfresh).keys name
  rw [hstart, hlower, hupper, hfixed, hstart', hlower', hupper', hfixed',
    varNamed?_apply_stateOf hs hfresh]
  cases hv : s.varNamed? name with
  | none =>
    cases hw : fresh.varNamed? name with
    | none => exact ⟨rfl, rfl, rfl, rfl⟩
    | some w => exact (hfresh.plain name w hw).found_eq_none
  | some v =>
    obtain ⟨w, hw⟩ := hfresh.holds name v hv
    rw [hw]
    exact w.found_resumed v

/-- **A warm start restores values and fixed flags, and the bounds of the variables that have a
value.** For a system of portable variables there is a state, and its start values are the snapshot.
After a warm start of a system that waits for it, the variable under each name has the value and the
fixed flag that it had, and it has its bounds exactly if it had a value or no bounds; the state is
the same again. -/
theorem warmStart_restores (hs : s.Portable) (hfresh : fresh.Awaits s) :
    ∃ state restored touched state', State.ofSystem s = .ok state ∧ s.snapshot = .ok state.start ∧
      (warmStart state).effect fresh = (restored, .ok touched) ∧
      State.ofSystem restored = .ok state' ∧ state'.Agrees state ∧
      ∀ name v, s.varNamed? name = some v → ∃ w, restored.varNamed? name = some w ∧
        w.value = v.value ∧ w.fixed = v.fixed ∧
        ((w.lower = v.lower ∧ w.upper = v.upper) ↔
          (v.value.isSome = true ∨ v.lower = none ∧ v.upper = none)) := by
  refine ⟨s.stateOf, s.stateOf.apply fresh, s.stateOf.touched fresh,
    (s.stateOf.apply fresh).stateOf, State.ofSystem_eq hs, snapshot_eq hs.readable, rfl,
    State.ofSystem_eq (portable_apply_stateOf hs hfresh), agrees_apply_stateOf hs hfresh, ?_⟩
  intro name v hv
  obtain ⟨w, hw⟩ := hfresh.holds name v hv
  refine ⟨w.resumed v, ?_, rfl, rfl, w.bounds_resumed v⟩
  rw [varNamed?_apply_stateOf hs hfresh, hw, hv]
  rfl

/-- A system with these variables and these registered names. -/
def holding (vars : List Variable) (entries : List (String × Handle)) : EquationSystem :=
  { new (some (.empty "model")) with vars := vars, registry := ⟨entries⟩ }

theorem mem_vars_of_varNamed? (h : s.varNamed? name = some v) : v ∈ s.vars := by
  obtain ⟨id, -, hv⟩ := Option.bind_eq_some_iff.mp h
  exact List.mem_of_getElem? hv

theorem mem_of_varId? {id : VarId} (h : s.varId? name = some id) :
    (name, Handle.ofVar id) ∈ s.registry.entries := by
  obtain ⟨handle, hget, hhandle⟩ := Option.bind_eq_some_iff.mp h
  cases handle with
  | foreign v => cases hhandle
  | ofVar other =>
    cases hhandle
    exact Table.mem_of_get? hget

/-- A bounded variable with two names, one without value and bounds, a fixed one, and a name that
stands for no variable. -/
theorem warmStart_restores_bounded_and_fixed :
    let plain (name : String) : Variable := ⟨name, none, false, none, none⟩
    let s := holding [⟨"x", some (.real 2.0), false, some (.real 0.0), some (.real 10.0)⟩,
        plain "z", ⟨"w", some (.real 1.5), true, none, none⟩]
      [("x", .ofVar 0), ("z", .ofVar 1), ("w", .ofVar 2), ("again", .ofVar 0),
        ("label", .foreign (.text "no variable"))]
    let fresh := holding [plain "w", plain "x", plain "z"]
      [("again", .ofVar 1), ("w", .ofVar 0), ("x", .ofVar 1), ("z", .ofVar 2)]
    s.Portable ∧ fresh.Awaits s ∧
      ∃ state restored touched w, State.ofSystem s = .ok state ∧
        (warmStart state).effect fresh = (restored, .ok touched) ∧
        restored.varNamed? "x" = some w ∧ w.value = some (.real 2.0) ∧ w.fixed = false ∧
        w.lower = some (.real 0.0) ∧ w.upper = some (.real 10.0) := by
  intro plain s fresh
  have hplain (name : String) : (plain name).Plain := ⟨rfl, rfl, rfl, rfl⟩
  have hs : s.Portable := by
    refine ⟨by decide, fun name v hv => ?_⟩
    obtain _ | ⟨_, _ | ⟨_, _ | ⟨_, _ | _⟩⟩⟩ := mem_vars_of_varNamed? hv
    · exact ⟨.inr ⟨2.0, rfl, by decide +kernel⟩, .inr ⟨0.0, rfl, by decide +kernel⟩,
        .inr ⟨10.0, rfl, by decide +kernel⟩, fun _ => rfl⟩
    · exact (hplain "z").portable
    · exact ⟨.inr ⟨1.5, rfl, by decide +kernel⟩, .inl rfl, .inl rfl, fun _ => rfl⟩
  have hfresh : fresh.Awaits s := by
    refine ⟨by decide, fun name w hw => ?_, fun name v hv => ?_,
      fun name other id hname hother => ?_⟩
    · obtain _ | ⟨_, _ | ⟨_, _ | ⟨_, _ | _⟩⟩⟩ := mem_vars_of_varNamed? hw
      · exact hplain "w"
      · exact hplain "x"
      · exact hplain "z"
    · obtain ⟨id, hid, -⟩ := Option.bind_eq_some_iff.mp hv
      obtain _ | ⟨_, _ | ⟨_, _ | ⟨_, _ | ⟨_, _ | ⟨_, _ | _⟩⟩⟩⟩⟩ := mem_of_varId? hid <;>
        exact ⟨_, rfl⟩
    · obtain _ | ⟨_, _ | ⟨_, _ | ⟨_, _ | ⟨_, _ | _⟩⟩⟩⟩ := mem_of_varId? hname <;>
        obtain _ | ⟨_, _ | ⟨_, _ | ⟨_, _ | ⟨_, _ | _⟩⟩⟩⟩ := mem_of_varId? hother <;> rfl
  obtain ⟨state, restored, touched, -, hstate, -, hrestored, -, -, hvars⟩ :=
    warmStart_restores hs hfresh
  obtain ⟨w, hw, hvalue, hfixed, hbounds⟩ := hvars "x" _ rfl
  obtain ⟨hlower, hupper⟩ := hbounds.mpr (.inl rfl)
  exact ⟨hs, hfresh, state, restored, touched, w, hstate, hrestored, hw, hvalue, hfixed, hlower,
    hupper⟩

/-- A variable with bounds and without a value loses its bounds on the way. -/
theorem warmStart_loses_bounds :
    let s := holding [⟨"x", none, false, some (.real 0.0), some (.real 10.0)⟩] [("x", .ofVar 0)]
    let fresh := holding [⟨"x", none, false, none, none⟩] [("x", .ofVar 0)]
    s.Portable ∧ fresh.Awaits s ∧ ∃ state restored touched, State.ofSystem s = .ok state ∧
      (warmStart state).effect fresh = (restored, .ok touched) ∧
      ¬ ∀ name v, s.varNamed? name = some v → ∃ w, restored.varNamed? name = some w ∧
        w.lower = v.lower ∧ w.upper = v.upper := by
  intro s fresh
  have hs : s.Portable := by
    refine ⟨by decide, fun name v hv => ?_⟩
    obtain _ | ⟨_, _ | _⟩ := mem_vars_of_varNamed? hv
    exact ⟨.inl rfl, .inr ⟨0.0, rfl, by decide +kernel⟩, .inr ⟨10.0, rfl, by decide +kernel⟩, nofun⟩
  have hfresh : fresh.Awaits s := by
    refine ⟨by decide, fun name w hw => ?_, fun name v hv => ?_,
      fun name other id hname hother => ?_⟩
    · obtain _ | ⟨_, _ | _⟩ := mem_vars_of_varNamed? hw
      exact ⟨rfl, rfl, rfl, rfl⟩
    · obtain ⟨id, hid, -⟩ := Option.bind_eq_some_iff.mp hv
      obtain _ | ⟨_, _ | _⟩ := mem_of_varId? hid
      exact ⟨_, rfl⟩
    · obtain _ | ⟨_, _ | _⟩ := mem_of_varId? hname
      obtain _ | ⟨_, _ | _⟩ := mem_of_varId? hother
      rfl
  refine ⟨hs, hfresh, _, _, _, rfl, rfl, fun hall => ?_⟩
  obtain ⟨w, hw, hlower, -⟩ := hall "x" _ rfl
  cases hw
  cases hlower

end EquationSystem

end Equilibrium

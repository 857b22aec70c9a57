/-
Bindings of index names to set elements.

An equation instance binds its index names to its own indices; a sum or product binds its index to
one element of its domain after the other. `within` does the latter: whatever its body does and
however it ends, a shadowed binding is put back and a new one is taken away.

Main statements:
* `Bindings.within_restores` - a body that leaves the bindings as it found them does so under
  `within` too, so nothing leaks from a domain operator.
-/
import Equilibrium.Value.Printer

namespace Equilibrium

/-- A remark for the log: nothing failed, but something was not as expected. -/
inductive Notice
  /-- As many index names as indices are needed; without them nothing is bound. -/
  | indexMismatch (names indices : List Value)
  /-- The residual of a compiled record has no value. -/
  | residualUnavailable (label : String)

/-- The words of a remark. -/
def Notice.message : Notice → String
  | indexMismatch names indices =>
      "Index names " ++ Value.quotedItems names ++ " do not match indices " ++
        Value.quotedItems indices ++ "; using an empty environment"
  | residualUnavailable label => "Residual unavailable for " ++ label

/-- Index names and the elements they are bound to. -/
abbrev Bindings := Table String

/-- A computation that reads and changes the bindings, and may fail; the bindings it leaves are
known also when it fails. -/
def Scoped (α : Type) : Type := Bindings → Except Fault α × Bindings

namespace Scoped

variable {α β : Type}

/-- A computation that only reads the bindings. -/
def read (f : Bindings → Except Fault α) : Scoped α := fun env => (f env, env)

/-- A computation that does not look at the bindings. -/
def lift (r : Except Fault α) : Scoped α := read fun _ => r

/-- Goes on with the result of a computation, under the bindings that it left. -/
def andThen (x : Scoped α) (f : α → Scoped β) : Scoped β := fun env =>
  match x env with
  | (.ok a, after) => f a after
  | (.error e, after) => (.error e, after)

instance : Monad Scoped where
  pure a := lift (.ok a)
  bind := andThen

end Scoped

namespace Bindings

/-- Binds a name; a bound name keeps its place. -/
def bind (env : Bindings) (name element : String) : Bindings := env.insert name element

/-- Takes a binding away, if there is one. -/
def unbind (env : Bindings) (name : String) : Bindings := env.erase name

/-- The element bound to a name. -/
def resolve (env : Bindings) (name : String) : Except Fault String :=
  match env.get? name with
  | some element => .ok element
  | none => .error (.unboundIndex name)

/-- Pairs index names with indices. Without names nothing is bound; if there are not as many indices
as names nothing is bound either, and a remark says so. -/
def ofIndices (names : Option (List Value)) (indices : List Value) : Bindings × List Notice :=
  match names with
  | none => (Table.empty, [])
  | some names =>
      if names.length = indices.length then
        (Table.ofList ((names.map Value.display).zip (indices.map Value.display)), [])
      else (Table.empty, [.indexMismatch names indices])

/-- The bindings after the body of `within`: the previous element of the name is put back, or its
binding taken away. -/
def restore (env : Bindings) (name : String) : Option String → Bindings
  | some element => env.bind name element
  | none => env.unbind name

/-- Runs `body` with `name` bound to `element`, then restores what was bound before. -/
def within {α : Type} (name element : String) (body : Scoped α) : Scoped α := fun env =>
  let (result, after) := body (env.bind name element)
  (result, restore after name (env.get? name))

/-- The written form of bindings. -/
def quoted (env : Bindings) : String :=
  "IndexEnvironment(" ++ (Value.ofTable (env.map Value.text)).quoted ++ ")"

theorem lift_restores {α : Type} (r : Except Fault α) (env : Bindings) :
    (Scoped.lift r env).2 = env := rfl

theorem read_restores {α : Type} (f : Bindings → Except Fault α) (env : Bindings) :
    (Scoped.read f env).2 = env := rfl

theorem bind_restores {α β : Type} {x : Scoped α} {f : α → Scoped β}
    (hx : ∀ env, (x env).2 = env) (hf : ∀ a env, (f a env).2 = env) (env : Bindings) :
    ((x >>= f) env).2 = env := by
  show (Scoped.andThen x f env).2 = env
  have h := hx env
  unfold Scoped.andThen
  split
  · next a after heq => simp [heq] at h; simp [hf, h]
  · next e after heq => simp [heq] at h; simp [h]

theorem drop_place_of_seek_eq_none {name element : String} {l : List (String × String)}
    (h : Table.seek name l = none) : Table.drop name (Table.place name element l) = l := by
  induction l with
  | nil => simp [Table.place, Table.drop]
  | cons p rest ih =>
      obtain ⟨n, b⟩ := p
      by_cases hn : name = n
      · simp [Table.seek, hn] at h
      · simp [Table.seek, hn] at h
        simp [Table.place, Table.drop, hn, ih h]

theorem place_place_of_seek_eq_some {name element previous : String} {l : List (String × String)}
    (h : Table.seek name l = some previous) :
    Table.place name previous (Table.place name element l) = l := by
  induction l with
  | nil => simp [Table.seek] at h
  | cons p rest ih =>
      obtain ⟨n, b⟩ := p
      by_cases hn : name = n
      · simp [Table.seek, hn] at h
        simp [Table.place, hn, h]
      · simp [Table.seek, hn] at h
        simp [Table.place, hn, ih h]

/-- Restoring undoes a binding, in names, elements and order. -/
theorem restore_bind (env : Bindings) (name element : String) :
    restore (env.bind name element) name (env.get? name) = env := by
  obtain ⟨l⟩ := env
  cases h : Table.seek name l with
  | none =>
      simp [restore, bind, unbind, Table.get?, Table.insert, Table.erase, h,
        drop_place_of_seek_eq_none h]
  | some previous =>
      simp [restore, bind, Table.get?, Table.insert, h, place_place_of_seek_eq_some h]

/-- A body that leaves the bindings as it found them does so under `within` too. -/
theorem within_restores {α : Type} {body : Scoped α} (h : ∀ env, (body env).2 = env)
    (name element : String) (env : Bindings) : (within name element body env).2 = env := by
  show restore (body (env.bind name element)).2 name (env.get? name) = env
  rw [h, restore_bind]

end Bindings

end Equilibrium

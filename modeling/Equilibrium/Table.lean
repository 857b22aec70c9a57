/-
Tables keyed by names, in order of first insertion.

Registries of variables, the components of a model, index bindings and report categories are all
tables: a later insertion under a known name keeps that name's place, and erasing a name and
inserting it again moves it to the end.

Main statements:
* `Table.get?_insert` - what is read after an insertion;
* `Table.keys_insert_of_contains` - replacing an entry keeps every name in its place;
* `Table.keys_insert_of_not_contains` - a new name goes to the end.
-/

namespace Equilibrium

/-- Entries by name, in the order in which the names were first inserted. -/
structure Table (α : Type) where
  entries : List (String × α)

namespace Table

variable {α β : Type}

/-- The table without entries. -/
def empty : Table α := ⟨[]⟩

instance : EmptyCollection (Table α) := ⟨empty⟩
instance : Inhabited (Table α) := ⟨empty⟩

/-- The first entry under `name`. -/
def seek (name : String) : List (String × α) → Option α
  | [] => none
  | (n, a) :: rest => if name = n then some a else seek name rest

/-- The entry under `name`. -/
def get? (t : Table α) (name : String) : Option α := seek name t.entries

/-- Whether `name` has an entry. -/
def contains (t : Table α) (name : String) : Bool := (t.get? name).isSome

/-- Replaces the first entry under `name`, or appends one. -/
def place (name : String) (a : α) : List (String × α) → List (String × α)
  | [] => [(name, a)]
  | (n, b) :: rest => if name = n then (n, a) :: rest else (n, b) :: place name a rest

/-- Sets the entry under `name`; a name that is already present keeps its place. -/
def insert (t : Table α) (name : String) (a : α) : Table α := ⟨place name a t.entries⟩

/-- Drops the first entry under `name`. -/
def drop (name : String) : List (String × α) → List (String × α)
  | [] => []
  | (n, b) :: rest => if name = n then rest else (n, b) :: drop name rest

/-- Removes the entry under `name`, if there is one. -/
def erase (t : Table α) (name : String) : Table α := ⟨drop name t.entries⟩

/-- The table built by inserting the pairs one after the other. -/
def ofList (pairs : List (String × α)) : Table α :=
  pairs.foldl (fun t p => t.insert p.1 p.2) empty

/-- The entries with their names. -/
def toList (t : Table α) : List (String × α) := t.entries

/-- The names, in order. -/
def keys (t : Table α) : List String := t.entries.map Prod.fst

/-- The entries without their names, in order. -/
def values (t : Table α) : List α := t.entries.map Prod.snd

/-- The number of entries. -/
def size (t : Table α) : Nat := t.entries.length

/-- Applies `f` to every entry. -/
def map (f : α → β) (t : Table α) : Table β := ⟨t.entries.map fun p => (p.1, f p.2)⟩

@[simp] theorem get?_empty (name : String) : (empty : Table α).get? name = none := rfl

theorem seek_place (name m : String) (a : α) (l : List (String × α)) :
    seek m (place name a l) = if m = name then some a else seek m l := by
  induction l with
  | nil => simp [place, seek]
  | cons p rest ih =>
      obtain ⟨n, b⟩ := p
      by_cases hn : name = n
      · by_cases h : m = n <;> simp [place, seek, hn, h]
      · by_cases h : m = n
        · simp [place, seek, hn, h, Ne.symm hn]
        · simp [place, seek, hn, h, ih]

/-- Reading after an insertion gives the new entry under its own name and the old ones elsewhere. -/
theorem get?_insert (t : Table α) (name m : String) (a : α) :
    (t.insert name a).get? m = if m = name then some a else t.get? m :=
  seek_place name m a t.entries

@[simp] theorem get?_insert_self (t : Table α) (name : String) (a : α) :
    (t.insert name a).get? name = some a := by simp [get?_insert]

theorem get?_insert_of_ne (t : Table α) {name m : String} (a : α) (h : m ≠ name) :
    (t.insert name a).get? m = t.get? m := by simp [get?_insert, h]

/-- What is found under a name is one of the entries. -/
theorem mem_of_get? {t : Table α} {name : String} {a : α} (h : t.get? name = some a) :
    (name, a) ∈ t.entries := by
  obtain ⟨entries⟩ := t
  change seek name entries = some a at h
  show (name, a) ∈ entries
  induction entries with
  | nil => simp [seek] at h
  | cons entry rest ih =>
    rw [seek] at h
    split at h
    · next heq =>
      cases h
      rw [heq]
      exact List.mem_cons_self
    · exact List.mem_cons_of_mem entry (ih h)

theorem contains_iff_mem_keys (t : Table α) (name : String) :
    t.contains name = true ↔ name ∈ t.keys := by
  obtain ⟨l⟩ := t
  induction l with
  | nil => simp [contains, get?, keys, seek]
  | cons p rest ih =>
      obtain ⟨n, b⟩ := p
      by_cases h : name = n
      · simp [contains, get?, keys, seek, h]
      · have : (⟨(n, b) :: rest⟩ : Table α).contains name = (⟨rest⟩ : Table α).contains name := by
          simp [contains, get?, seek, h]
        rw [this, ih]
        simp [keys, h]

theorem keys_insert_of_contains (t : Table α) {name : String} (a : α) (h : t.contains name = true) :
    (t.insert name a).keys = t.keys := by
  rw [contains_iff_mem_keys] at h
  obtain ⟨l⟩ := t
  simp only [keys, insert] at h ⊢
  induction l with
  | nil => simp at h
  | cons p rest ih =>
      obtain ⟨n, b⟩ := p
      by_cases hn : name = n
      · simp [place, hn]
      · have hrest : name ∈ rest.map Prod.fst := by simpa [hn] using h
        simp [place, hn, ih hrest]

theorem keys_insert_of_not_contains (t : Table α) {name : String} (a : α)
    (h : t.contains name = false) : (t.insert name a).keys = t.keys ++ [name] := by
  have h' : name ∉ t.keys := by
    intro hm
    rw [← contains_iff_mem_keys] at hm
    simp [h] at hm
  obtain ⟨l⟩ := t
  simp only [keys, insert] at h' ⊢
  induction l with
  | nil => rfl
  | cons p rest ih =>
      obtain ⟨n, b⟩ := p
      by_cases hn : name = n
      · simp [hn] at h'
      · have hrest : name ∉ rest.map Prod.fst := by
          intro hm
          exact h' (List.mem_cons_of_mem _ hm)
        have hc : (⟨rest⟩ : Table α).contains name = false := by
          cases hh : (⟨rest⟩ : Table α).contains name with
          | false => rfl
          | true => exact absurd ((contains_iff_mem_keys _ _).1 hh) hrest
        simp [place, hn, ih hc hrest]

end Table

end Equilibrium

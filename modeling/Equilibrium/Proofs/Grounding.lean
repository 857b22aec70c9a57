/-
Writing a term out.

A term is written out by putting the elements in the places of its free indices, the indices of the
instance where a reference inherits them, and one copy of the body for each element in the place of
a sum or product over a domain. What stands for a free index is read off the text around it: the
innermost sum or product over that index, or else what the instance binds. There are no bindings to
be opened and closed.

* `Term.ground` - the written-out form of a term;
* `Term.compile_ground` - a term and its written-out form compile to the same expression, or fail
  for the same reason; the written-out form needs neither bindings nor indices of an instance.

An index that nothing binds stays free and a domain without elements stays a domain, so a
written-out term fails where the term itself does.
-/
import Equilibrium.Proofs.Compiled

namespace Equilibrium

/-- What index names stand for at some place of a term. -/
abbrev Elements := String → Option String

/-- One more index with its element, which hides what the name stood for so far. -/
def Elements.set (σ : Elements) (name element : String) : Elements := fun m =>
  if m = name then some element else σ m

/-- The elements of some bindings with one more binding. -/
theorem Elements.get?_bind (env : Bindings) (name element : String) :
    (env.bind name element).get? = Elements.set env.get? name element := by
  funext m
  exact Table.get?_insert env name m element

/-- An index written out: the element it stands for as a literal, or the index itself. -/
def IndexEntry.ground (σ : Elements) : IndexEntry → IndexEntry
  | free name => match σ name with
    | some element => literal (.text element)
    | none => free name
  | literal v => literal v

/-- The indices of a reference written out; inherited ones become those of the instance. -/
def IndexEntry.groundAll (indices : List String) (σ : Elements) :
    Option (List IndexEntry) → Option (List IndexEntry)
  | none => some (indices.map fun i => literal (.text i))
  | some entries => some (entries.map (ground σ))

namespace Term

mutual

/-- The written-out form of a term in an instance with the given indices, at a place where index
names stand for the given elements. -/
def ground (indices : List String) (σ : Elements) : Term → Term
  | var name own => var name (IndexEntry.groundAll indices σ own)
  | param name own => param name (IndexEntry.groundAll indices σ own)
  | const v => const v
  | raw text => raw text
  | index name => match σ name with
    | some element => const (.text element)
    | none => index name
  | add terms => add (groundAll indices σ terms)
  | mul factors => mul (groundAll indices σ factors)
  | pow base exponent => pow (ground indices σ base) (ground indices σ exponent)
  | div numerator denominator =>
      div (ground indices σ numerator) (ground indices σ denominator)
  | neg body => neg (ground indices σ body)
  | sum i domain body =>
      if domain.isEmpty then sum i domain body
      else add (domain.map fun v => ground indices (σ.set i v.display) body)
  | prod i domain body =>
      if domain.isEmpty then prod i domain body
      else mul (domain.map fun v => ground indices (σ.set i v.display) body)
  | eq lhs rhs => eq (ground indices σ lhs) (ground indices σ rhs)
  | plain v => plain v
termination_by structural t => t

/-- The written-out forms of a list of terms. -/
def groundAll (indices : List String) (σ : Elements) : List Term → List Term
  | [] => []
  | t :: rest => ground indices σ t :: groundAll indices σ rest
termination_by structural ts => ts

end

theorem groundAll_eq_map (indices : List String) (σ : Elements) (terms : List Term) :
    groundAll indices σ terms = terms.map (ground indices σ) := by
  induction terms with
  | nil => rfl
  | cons t rest ih => rw [groundAll, ih, List.map_cons]

end Term

/-! ### References -/

namespace Scope

/-- The element of an index that is written out, where nothing is bound. -/
theorem element_ground (env : Bindings) (entry : IndexEntry) :
    element Table.empty (entry.ground env.get?) = element env entry := by
  cases entry with
  | literal v => rfl
  | free name =>
    rw [IndexEntry.ground]
    cases h : env.get? name with
    | none => simp [element, Bindings.resolve, h]
    | some e => simp [element, Bindings.resolve, h]

/-- The indices of a reference that is written out, where nothing is bound or inherited. -/
theorem resolveIndices_ground (indices : List String) (env : Bindings)
    (own : Option (List IndexEntry)) :
    resolveIndices [] (IndexEntry.groundAll indices env.get? own) Table.empty =
      resolveIndices indices own env := by
  cases own with
  | none =>
    show (indices.map fun i => IndexEntry.literal (.text i)).mapM (element Table.empty) = _
    rw [List.mapM_map]
    exact (List.mapM_pure).trans (congrArg Except.ok (List.map_id indices))
  | some entries =>
    show (entries.map (IndexEntry.ground env.get?)).mapM (element Table.empty) = _
    rw [List.mapM_map]
    exact congrArg entries.mapM (funext (element_ground env))

end Scope

/-! ### The written-out form compiles to the same -/

namespace Term

/-- **Writing out.** A term compiles under some bindings, in some instance, to what its written-out
form compiles to without bindings and without an instance, or fails for the same reason. -/
theorem compile_ground (registry : Table Handle) (params : Source) (indices : List String)
    (t : Term) (env : Bindings) :
    (t.compile ⟨registry, params, indices⟩ env).1 =
      ((t.ground indices env.get?).compile ⟨registry, params, []⟩ Table.empty).1 := by
  show compiled ⟨registry, params, indices⟩ env t =
    compiled ⟨registry, params, []⟩ Table.empty (t.ground indices env.get?)
  induction t generalizing env with
  | var name own =>
    rw [ground, compiled_var, compiled_var, Scope.resolveIndices_ground]
    rfl
  | param name own =>
    rw [ground, compiled_param, compiled_param, Scope.resolveIndices_ground]
  | const v => rfl
  | raw text => rfl
  | index name =>
    rw [ground, compiled_index, Bindings.resolve]
    cases h : env.get? name with
    | none => simp [compiled_index, Bindings.resolve]
    | some e => rfl
  | add terms ih =>
    rw [ground, compiled_add, compiled_add, groundAll_eq_map, List.mapM_map]
    exact congrArg (· >>= Expression.addAll) (mapM_congr_of_mem fun t ht => ih t ht env)
  | mul factors ih =>
    rw [ground, compiled_mul, compiled_mul, groundAll_eq_map, List.mapM_map]
    exact congrArg (· >>= Expression.mulAll) (mapM_congr_of_mem fun t ht => ih t ht env)
  | pow base exponent ihb ihe =>
    rw [ground, compiled_pow, compiled_pow, ihb, ihe]
  | div numerator denominator ihn ihd =>
    rw [ground, compiled_div, compiled_div, ihn, ihd]
  | neg body ih => rw [ground, compiled_neg, compiled_neg, ih]
  | sum i domain body ih =>
    -- the copies of the body differ in what the index stands for, so `ih` is used at new bindings
    rw [ground, compiled_sum]
    split
    · rw [compiled_sum, if_pos ‹_›]
    · rw [compiled_add, List.mapM_map]
      refine congrArg (· >>= Expression.addAll) (mapM_congr_of_mem fun v _ => ?_)
      rw [ih, Elements.get?_bind]
      rfl
  | prod i domain body ih =>
    rw [ground, compiled_prod]
    split
    · rw [compiled_prod, if_pos ‹_›]
    · rw [compiled_mul, List.mapM_map]
      refine congrArg (· >>= Expression.mulAll) (mapM_congr_of_mem fun v _ => ?_)
      rw [ih, Elements.get?_bind]
      rfl
  | eq lhs rhs ihl ihr => rfl
  | plain v => rfl

/-- An inner sum over the same index hides the outer one, and its binding ends with it. -/
example :
    let x : Term := var "x" (some [.free "i"])
    let xAt (v : String) : Term := var "x" (some [.literal (.text v)])
    ground [] (fun _ => none) (sum "i" [.text "a", .text "b"] (mul [sum "i" [.text "c"] x, x])) =
      add [mul [add [xAt "c"], xAt "a"], mul [add [xAt "c"], xAt "b"]] := by
  rfl

end Term

end Equilibrium

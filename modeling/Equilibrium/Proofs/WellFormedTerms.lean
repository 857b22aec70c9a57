/-
Well-formed terms.

A term is well formed under some bindings if every name in it can be looked up: its free indices are
bound, its variables are registered, and its parameters have values. Products have factors, domains
have elements, and neither documentation nor an equation stands where a value is wanted. What the
operands of an operation are does not matter.

* `Term.WellFormed` - well-formed terms, by recursion on the term;
* `Term.wellFormed_of_compiled` - no part of a term that compiles is left out;
* `Term.arithmetic_compiled` - compiling a well-formed term fails for the operands only;
* `Term.compile_accepts_wellFormed` - so the compiler accepts the well-formed terms and no other.
-/
import Equilibrium.Proofs.Compiled
import Equilibrium.Proofs.OperandFaults

namespace Equilibrium

/-! ### Indices -/

/-- What an index of a reference stands for: the element of a free index, or the text of a literal.
-/
def IndexEntry.StandsFor (env : Bindings) : IndexEntry → String → Prop
  | free name, element => env.get? name = some element
  | literal v, element => element = v.display

/-- The indices of a reference: those of the instance, or what each of its own ones stands for. -/
def Scope.IndicesOf (s : Scope) (env : Bindings) : Option (List IndexEntry) → List String → Prop
  | none, indices => indices = s.indices
  | some entries, indices => List.Forall₂ (IndexEntry.StandsFor env) entries indices

theorem Bindings.resolve_eq_ok {env : Bindings} {name element : String} :
    env.resolve name = .ok element ↔ env.get? name = some element := by
  rw [resolve]
  cases env.get? name with
  | none => simp
  | some e => simp

theorem Scope.element_eq_ok {env : Bindings} {entry : IndexEntry} {element : String} :
    Scope.element env entry = .ok element ↔ entry.StandsFor env element := by
  cases entry with
  | free name => exact Bindings.resolve_eq_ok
  | literal v =>
    rw [Scope.element, Except.ok.injEq]
    exact eq_comm

/-- The indices of a reference are looked up one by one. -/
theorem Scope.resolveIndices_eq_ok {s : Scope} {env : Bindings} {own : Option (List IndexEntry)}
    {indices : List String} :
    Scope.resolveIndices s.indices own env = .ok indices ↔ s.IndicesOf env own indices := by
  cases own with
  | none =>
    rw [resolveIndices, Except.ok.injEq]
    exact eq_comm
  | some entries =>
    show entries.mapM (element env) = .ok indices ↔ List.Forall₂ _ entries indices
    rw [mapM_eq_ok]
    exact ⟨fun h => h.imp fun _ _ => element_eq_ok.mp, fun h => h.imp fun _ _ => element_eq_ok.mpr⟩

theorem Scope.handle_eq_ok {s : Scope} {name : String} {indices : List String} {h : Handle} :
    s.handle name indices = .ok h ↔ s.registry.get? (qualifiedName name indices) = some h := by
  rw [handle]
  cases s.registry.get? (qualifiedName name indices) with
  | none => simp
  | some h' => simp

/-! ### Terms -/

namespace Term

mutual

/-- Whether every name in a term can be looked up, in a scope and under some bindings, and nothing
stands in it that has no value. A sum or product is well formed if its body is for each element of
its domain. -/
def WellFormed (s : Scope) (env : Bindings) : Term → Prop
  | var name own => ∃ indices, s.IndicesOf env own indices ∧
      ∃ h, s.registry.get? (qualifiedName name indices) = some h
  | param name own => ∃ indices, s.IndicesOf env own indices ∧
      ∃ v, s.params.get name indices = .ok v
  | const _ => True
  | raw _ => False
  | index name => ∃ element, env.get? name = some element
  | add terms => AllWellFormed s env terms
  | mul factors => factors ≠ [] ∧ AllWellFormed s env factors
  | pow base exponent => WellFormed s env base ∧ WellFormed s env exponent
  | div numerator denominator => WellFormed s env numerator ∧ WellFormed s env denominator
  | neg body => WellFormed s env body
  | sum i domain body => domain ≠ [] ∧ ∀ v ∈ domain, WellFormed s (env.bind i v.display) body
  | prod i domain body => domain ≠ [] ∧ ∀ v ∈ domain, WellFormed s (env.bind i v.display) body
  | eq _ _ => False
  | plain _ => False
termination_by structural t => t

/-- Whether all terms of a list are well formed. -/
def AllWellFormed (s : Scope) (env : Bindings) : List Term → Prop
  | [] => True
  | t :: rest => WellFormed s env t ∧ AllWellFormed s env rest
termination_by structural ts => ts

end

variable {s : Scope} {env : Bindings}

theorem allWellFormed_iff {terms : List Term} :
    AllWellFormed s env terms ↔ ∀ t ∈ terms, t.WellFormed s env := by
  induction terms with
  | nil => simp [AllWellFormed]
  | cons t rest ih => simp [AllWellFormed, ih]

/-- A term that compiles is well formed: every part of it was compiled. -/
theorem wellFormed_of_compiled {t : Term} {e : Expression} (h : t.compiled s env = .ok e) :
    t.WellFormed s env := by
  induction t generalizing env e with
  | var name own =>
    rw [compiled_var] at h
    obtain ⟨handle, hhandle, -⟩ := map_eq_ok.mp h
    obtain ⟨indices, hindices, hget⟩ := bind_eq_ok.mp hhandle
    exact ⟨indices, Scope.resolveIndices_eq_ok.mp hindices, handle, Scope.handle_eq_ok.mp hget⟩
  | param name own =>
    rw [compiled_param] at h
    obtain ⟨v, hv, -⟩ := map_eq_ok.mp h
    obtain ⟨indices, hindices, hget⟩ := bind_eq_ok.mp hv
    exact ⟨indices, Scope.resolveIndices_eq_ok.mp hindices, v, hget⟩
  | const v => exact trivial
  | raw text => cases h
  | index name =>
    rw [compiled_index] at h
    obtain ⟨element, helement, -⟩ := map_eq_ok.mp h
    exact ⟨element, Bindings.resolve_eq_ok.mp helement⟩
  | add terms ih =>
    rw [compiled_add] at h
    obtain ⟨es, hes, -⟩ := bind_eq_ok.mp h
    rw [WellFormed, allWellFormed_iff]
    intro t ht
    obtain ⟨e, he⟩ := exists_of_mapM hes ht
    exact ih t ht he
  | mul factors ih =>
    rw [compiled_mul] at h
    obtain ⟨es, hes, hmul⟩ := bind_eq_ok.mp h
    rw [WellFormed, allWellFormed_iff]
    constructor
    · rintro rfl
      cases hes
      simp [Expression.mulAll] at hmul
    · intro t ht
      obtain ⟨e, he⟩ := exists_of_mapM hes ht
      exact ih t ht he
  | pow base exponent ihbase ihexponent =>
    rw [compiled_pow] at h
    obtain ⟨a, ha, h⟩ := bind_eq_ok.mp h
    obtain ⟨b, hb, -⟩ := bind_eq_ok.mp h
    exact ⟨ihbase ha, ihexponent hb⟩
  | div numerator denominator ihnumerator ihdenominator =>
    rw [compiled_div] at h
    obtain ⟨a, ha, h⟩ := bind_eq_ok.mp h
    obtain ⟨b, hb, -⟩ := bind_eq_ok.mp h
    exact ⟨ihnumerator ha, ihdenominator hb⟩
  | neg body ih =>
    rw [compiled_neg] at h
    obtain ⟨a, ha, -⟩ := bind_eq_ok.mp h
    exact ih ha
  | sum i domain body ih =>
    rw [compiled_sum] at h
    split at h
    · simp at h
    · next hdomain =>
      obtain ⟨es, hes, -⟩ := bind_eq_ok.mp h
      refine ⟨by simpa using hdomain, fun v hv => ?_⟩
      -- the copy for `v` was compiled under one more binding, so `ih` is used at these bindings
      obtain ⟨e, he⟩ := exists_of_mapM hes hv
      exact ih he
  | prod i domain body ih =>
    rw [compiled_prod] at h
    split at h
    · simp at h
    · next hdomain =>
      obtain ⟨es, hes, -⟩ := bind_eq_ok.mp h
      refine ⟨by simpa using hdomain, fun v hv => ?_⟩
      obtain ⟨e, he⟩ := exists_of_mapM hes hv
      exact ih he
  | eq lhs rhs => cases h
  | plain v => cases h

/-- Compiling a well-formed term fails for the operands only. -/
theorem arithmetic_compiled {t : Term} (h : t.WellFormed s env) :
    Arithmetic (t.compiled s env) := by
  induction t generalizing env with
  | var name own =>
    obtain ⟨indices, hindices, handle, hget⟩ := h
    rw [compiled_var, Scope.resolveIndices_eq_ok.mpr hindices]
    show Arithmetic ((s.handle name indices).map _)
    rw [Scope.handle_eq_ok.mpr hget]
    exact .ok _
  | param name own =>
    obtain ⟨indices, hindices, v, hget⟩ := h
    rw [compiled_param, Scope.resolveIndices_eq_ok.mpr hindices]
    show Arithmetic ((s.params.get name indices).map _)
    rw [hget]
    exact .ok _
  | const v => exact .ok _
  | raw text => exact h.elim
  | index name =>
    obtain ⟨element, helement⟩ := h
    rw [compiled_index, Bindings.resolve_eq_ok.mpr helement]
    exact .ok _
  | add terms ih =>
    rw [WellFormed, allWellFormed_iff] at h
    rw [compiled_add]
    exact (Arithmetic.mapM fun t ht => ih t ht (h t ht)).bind Expression.arithmetic_addAll
  | mul factors ih =>
    rw [WellFormed, allWellFormed_iff] at h
    rw [compiled_mul]
    refine (Arithmetic.mapM fun t ht => ih t ht (h.2 t ht)).bind_of_ok fun es hes => ?_
    exact Expression.arithmetic_mulAll (ne_nil_of_mapM hes h.1)
  | pow base exponent ihbase ihexponent =>
    rw [compiled_pow]
    exact (ihbase h.1).bind fun a => (ihexponent h.2).bind a.arithmetic_pow
  | div numerator denominator ihnumerator ihdenominator =>
    rw [compiled_div]
    exact (ihnumerator h.1).bind fun a => (ihdenominator h.2).bind a.arithmetic_div
  | neg body ih =>
    rw [compiled_neg]
    exact (ih h).bind Expression.arithmetic_negate
  | sum i domain body ih =>
    rw [compiled_sum, if_neg (by simpa using h.1)]
    exact (Arithmetic.mapM fun v hv => ih (h.2 v hv)).bind Expression.arithmetic_addAll
  | prod i domain body ih =>
    rw [compiled_prod, if_neg (by simpa using h.1)]
    refine (Arithmetic.mapM fun v hv => ih (h.2 v hv)).bind_of_ok fun es hes => ?_
    exact Expression.arithmetic_mulAll (ne_nil_of_mapM hes h.1)
  | eq lhs rhs => exact h.elim
  | plain v => exact h.elim

/-- **The compiler accepts the well-formed terms.** A term that compiles is well formed. A
well-formed term compiles, unless its operands are at fault: a division by zero, a result that is
out of range, or operands of kinds that do not combine. -/
theorem compile_accepts_wellFormed (s : Scope) (t : Term) (env : Bindings) :
    (∀ e, (t.compile s env).1 = .ok e → t.WellFormed s env) ∧
    (t.WellFormed s env → ∀ f, (t.compile s env).1 = .error f →
      f = .divisionByZero ∨ f = .overflow ∨ f = .illTyped) :=
  ⟨fun _ => wellFormed_of_compiled, arithmetic_compiled⟩

/-- The sum of `x i / p i` over two elements is well formed, whatever values the parameter has.
It compiles if they are `1`, and divides by zero if one of them is `0`. -/
theorem compile_accepts_wellFormed_quotients :
    let s (n : Int) : Scope := {
      registry := ⟨[("x_a", .ofVar 0), ("x_b", .ofVar 1)]⟩
      params := .tables [(.text "p",
        .map [(.text "a", .number (.int 1)), (.text "b", .number (.int n))])]
      indices := [] }
    let t : Term := .sum "i" [.text "a", .text "b"]
      (.div (.var "x" (some [.free "i"])) (.param "p" (some [.free "i"])))
    (t.compile (s 1) Table.empty).1 = .ok (.linear [.var 0, .var 1]) ∧
      t.WellFormed (s 1) Table.empty ∧ t.WellFormed (s 0) Table.empty ∧
      ∃ f, (t.compile (s 0) Table.empty).1 = .error f ∧
        (f = .divisionByZero ∨ f = .overflow ∨ f = .illTyped) := by
  intro s t
  have hone : (t.compile (s 1) Table.empty).1 = .ok (.linear [.var 0, .var 1]) := rfl
  have hzero : (t.compile (s 0) Table.empty).1 = .error .divisionByZero := rfl
  have hwellFormed : t.WellFormed (s 0) Table.empty := by
    refine ⟨by simp, ?_⟩
    rintro v (_ | ⟨_, _ | ⟨_, _ | _⟩⟩)
    · exact ⟨⟨["a"], .cons rfl .nil, _, rfl⟩, ["a"], .cons rfl .nil, _, rfl⟩
    · exact ⟨⟨["b"], .cons rfl .nil, _, rfl⟩, ["b"], .cons rfl .nil, _, rfl⟩
  exact ⟨hone, (compile_accepts_wellFormed (s 1) t Table.empty).1 _ hone, hwellFormed, _, hzero,
    (compile_accepts_wellFormed (s 0) t Table.empty).2 hwellFormed _ hzero⟩

end Term

end Equilibrium

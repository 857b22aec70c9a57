/-
Systems that grow.

A system grows when variables are added and new names are registered. The names that were known keep
their meaning, so what could be compiled is compiled to the same, and only what had failed may
change:

* `EquationSystem.Grows` - the known names and the variables of a system are those of a larger one;
* `Term.compiled_mono`, `Equation.parts_mono` - terms and equations that compile compile to the same
  under a larger registry;
* `EquationSystem.partsOf_mono` - and so does the equation of a record in a system that has grown.
-/
import Equilibrium.Proofs.Pass

namespace Equilibrium

variable {registry larger : Table Handle} {params : Source} {indices : List String}
  {env : Bindings}

/-! ### Larger registries -/

/-- Every name that is registered is registered for the same in the larger table. -/
def Table.Within {α : Type} (t larger : Table α) : Prop :=
  ∀ name a, t.get? name = some a → larger.get? name = some a

theorem Scope.handle_mono (hwithin : registry.Within larger) {name : String} {own : List String}
    {h : Handle} (hh : Scope.handle ⟨registry, params, indices⟩ name own = .ok h) :
    Scope.handle ⟨larger, params, indices⟩ name own = .ok h := by
  rw [handle] at hh ⊢
  cases hget : registry.get? (qualifiedName name own) with
  | none =>
    rw [hget] at hh
    simp at hh
  | some h' =>
    rw [hget] at hh
    rw [hwithin _ _ hget]
    exact hh

theorem Term.compiled_mono (hwithin : registry.Within larger) {t : Term} {e : Expression}
    (h : t.compiled ⟨registry, params, indices⟩ env = .ok e) :
    t.compiled ⟨larger, params, indices⟩ env = .ok e := by
  -- only a reference to a variable looks at the registry
  induction t generalizing env e with
  | var name own =>
    rw [compiled_var] at h ⊢
    refine map_mono h fun handle hhandle => ?_
    exact bind_mono hhandle (fun _ hown => hown) fun _ => Scope.handle_mono hwithin
  | param name own =>
    rw [compiled_param] at h ⊢
    exact h
  | const v => exact h
  | raw text => exact h
  | index name =>
    rw [compiled_index] at h ⊢
    exact h
  | add terms ih =>
    rw [compiled_add] at h ⊢
    exact bind_mono h (fun _ hes => mapM_mono hes fun t ht _ => ih t ht) fun _ he => he
  | mul factors ih =>
    rw [compiled_mul] at h ⊢
    exact bind_mono h (fun _ hes => mapM_mono hes fun t ht _ => ih t ht) fun _ he => he
  | pow base exponent ihbase ihexponent =>
    rw [compiled_pow] at h ⊢
    refine bind_mono h (fun _ => ihbase) fun a ha => ?_
    exact bind_mono ha (fun _ => ihexponent) fun _ he => he
  | div numerator denominator ihnumerator ihdenominator =>
    rw [compiled_div] at h ⊢
    refine bind_mono h (fun _ => ihnumerator) fun a ha => ?_
    exact bind_mono ha (fun _ => ihdenominator) fun _ he => he
  | neg body ih =>
    rw [compiled_neg] at h ⊢
    exact bind_mono h (fun _ => ih) fun _ he => he
  | sum i domain body ih =>
    rw [compiled_sum] at h ⊢
    split at h
    · simp at h
    · next hdomain =>
      rw [if_neg hdomain]
      exact bind_mono h (fun _ hes => mapM_mono hes fun _ _ _ => ih) fun _ he => he
  | prod i domain body ih =>
    rw [compiled_prod] at h ⊢
    split at h
    · simp at h
    · next hdomain =>
      rw [if_neg hdomain]
      exact bind_mono h (fun _ hes => mapM_mono hes fun _ _ _ => ih) fun _ he => he
  | eq lhs rhs => exact h
  | plain v => exact h

theorem Pairing.compile_mono (hwithin : registry.Within larger) {t : Term} {h : Handle}
    (hh : (compile ⟨registry, params, indices⟩ t env).1 = .ok h) :
    (compile ⟨larger, params, indices⟩ t env).1 = .ok h := by
  unfold compile at hh ⊢
  split at hh
  · next name own =>
    exact bind_mono (b := h) hh (fun _ hown => hown) fun _ => Scope.handle_mono hwithin
  · exact Scope.handle_mono hwithin hh
  · exact hh

/-! ### More variables -/

theorem Handle.pair_mono {vars more : List Variable}
    (hvars : ∀ (id : VarId) v, vars[id]? = some v → more[id]? = some v) {residual : Expression}
    {h : Handle} {shape : Shape} (hshape : h.pair vars residual = .ok shape) :
    h.pair more residual = .ok shape := by
  rw [pair] at hshape ⊢
  cases hid : h.varId? with
  | none =>
    rw [hid] at hshape
    simp at hshape
  | some id =>
    rw [hid] at hshape
    cases hv : vars[id]? with
    | none =>
      rw [Option.bind_some, hv] at hshape
      simp at hshape
    | some v =>
      rw [Option.bind_some, hv] at hshape
      rw [Option.bind_some, hvars id v hv]
      exact hshape

theorem Equation.parts_mono {vars more : List Variable} (hwithin : registry.Within larger)
    (hvars : ∀ (id : VarId) v, vars[id]? = some v → more[id]? = some v) {pairing : Option Term}
    {equation : Term} {p : Expression × Shape}
    (h : parts vars ⟨registry, params, indices⟩ pairing equation env = .ok p) :
    parts more ⟨larger, params, indices⟩ pairing equation env = .ok p := by
  rw [parts] at h ⊢
  refine bind_mono h (fun _ hsides => hsides) fun sides h => ?_
  refine bind_mono h (fun _ => Term.compiled_mono hwithin) fun left h => ?_
  refine bind_mono h (fun _ => Term.compiled_mono hwithin) fun right h => ?_
  refine bind_mono h (fun _ hresidual => hresidual) fun residual h => ?_
  refine bind_mono h (fun c hc => ?_) fun _ hresult => hresult
  cases pairing with
  | none => exact hc
  | some t =>
    rw [shape, Scoped.fst_bind (Pairing.compile_restores _ t)] at hc ⊢
    exact bind_mono hc (fun _ => Pairing.compile_mono hwithin) fun _ => Handle.pair_mono hvars

/-! ### Larger systems -/

namespace EquationSystem

variable {s t : EquationSystem}

/-- Every name that is registered and every variable that was added is found in the larger system as
well. -/
structure Grows (s t : EquationSystem) : Prop where
  registry : s.registry.Within t.registry
  vars : ∀ (id : VarId) v, s.vars[id]? = some v → t.vars[id]? = some v

theorem Grows.refl (s : EquationSystem) : s.Grows s :=
  ⟨fun _ _ h => h, fun _ _ h => h⟩

theorem partsOf_mono (hgrows : s.Grows t) {p : Payload} {equation : Term}
    {parts : Expression × Shape} (h : s.partsOf params p equation = .ok parts) :
    t.partsOf params p equation = .ok parts :=
  Equation.parts_mono hgrows.registry hgrows.vars h

end EquationSystem

end Equilibrium

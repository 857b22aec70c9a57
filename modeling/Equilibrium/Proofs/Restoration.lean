/-
No binding outlives the compilation that made it.

A sum or product binds its index anew for each element of its domain, also where the same name is
bound already, and any part of its body may fail. Each binding is undone before the next element and
before the failure is passed on:

* `EquationSystem.placeEquation_restores` - compiling an equation into the model leaves the bindings
  as they were;
* `EquationSystem.compiling_leaves_no_binding` - and so does compiling a term or resolving a
  complementary variable: names, elements and order are those from before, whatever the result.
-/
import Equilibrium.EquationSystem.Equations

namespace Equilibrium

namespace EquationSystem

/-- Compiling an equation into the model leaves the bindings as they were, also when the term is no
equation, when there is no model and when a side or the pairing fails. -/
theorem placeEquation_restores (s : EquationSystem) (equation : Term) (params : Source)
    (indices : List String) (pairing : Option Term) (name : String) (env : Bindings) :
    (s.placeEquation equation params indices pairing name env).2 = env := by
  refine Bindings.bind_restores (Bindings.lift_restores _) (fun sides => ?_) env
  refine Bindings.bind_restores (Bindings.lift_restores _) fun m => ?_
  refine Bindings.bind_restores (Equation.compile_restores _ _ _ _ _ _) fun c => ?_
  exact Bindings.bind_restores (Bindings.lift_restores _) fun _ _ => rfl

/-- **No leakage.** Whether compiling a term, resolving a complementary variable or compiling an
equation into the model succeeds or fails, the bindings afterwards are those from before: the same
names with the same elements in the same order. -/
theorem compiling_leaves_no_binding (s : EquationSystem) (params : Source)
    (indices : List String) (env : Bindings) :
    (∀ t : Term, (t.compile (s.scope params indices) env).2 = env) ∧
    (∀ t : Term, (Pairing.compile (s.scope params indices) t env).2 = env) ∧
    ∀ (equation : Term) (pairing : Option Term) (name : String),
      (s.placeEquation equation params indices pairing name env).2 = env := by
  refine ⟨fun t => ?_, fun t => ?_, fun equation pairing name => ?_⟩
  · exact t.compile_restores (s.scope params indices) env
  · exact Pairing.compile_restores (s.scope params indices) t env
  · exact s.placeEquation_restores equation params indices pairing name env

end EquationSystem

end Equilibrium

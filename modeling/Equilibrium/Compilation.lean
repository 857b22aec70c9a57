/-
Compiling terms into expressions.

References resolve against a registry of handles by qualified name, `base` or `base_i1_i2`, and
against a parameter source; free indices resolve against the bindings. The parts of a term are
compiled from left to right before they are combined, so a name that does not resolve is reported
before values that do not combine.

Main statements:
* `Term.compile_restores` - compiling leaves the bindings as they were, also when it fails;
* `Pairing.compile_restores` - and so does resolving a complementary variable.
-/
import Equilibrium.Expression
import Equilibrium.Term.Printer
import Equilibrium.Bindings
import Equilibrium.Parameters

namespace Equilibrium

/-- What a registered name stands for: a variable, or some other value. -/
inductive Handle
  | ofVar (id : VarId)
  | foreign (value : Value)

/-- A handle as an expression. -/
def Handle.toExpression : Handle → Expression
  | ofVar id => .var id
  | foreign v => .native v

/-- The variable that a handle stands for, if it does. -/
def Handle.varId? : Handle → Option VarId
  | ofVar id => some id
  | foreign _ => none

/-- The registered name of the variable `base` at some indices. -/
def qualifiedName (base : String) (indices : List String) : String :=
  Text.join "_" (base :: indices)

/-- What the names in a term refer to: registered handles, a parameter source, and the indices of
the equation instance. -/
structure Scope where
  registry : Table Handle
  params : Source
  indices : List String

namespace Scope

/-- The element of one index of a reference. -/
def element (env : Bindings) : IndexEntry → Except Fault String
  | .free name => env.resolve name
  | .literal v => .ok v.display

/-- The indices of a reference: its own ones, or those of the instance. -/
def resolveIndices (indices : List String) (own : Option (List IndexEntry)) (env : Bindings) :
    Except Fault (List String) :=
  match own with
  | none => .ok indices
  | some entries => entries.mapM (element env)

/-- The handle registered for a variable at some indices. -/
def handle (s : Scope) (name : String) (indices : List String) : Except Fault Handle :=
  match s.registry.get? (qualifiedName name indices) with
  | some h => .ok h
  | none => .error (.missingVariable (qualifiedName name indices))

/-- The handle that a variable reference resolves to. -/
def resolveVariable (s : Scope) (name : String) (own : Option (List IndexEntry)) : Scoped Handle :=
  Scoped.read fun env => do
    let indices ← resolveIndices s.indices own env
    s.handle name indices

/-- The value that a parameter reference resolves to. -/
def resolveParameter (s : Scope) (name : String) (own : Option (List IndexEntry)) :
    Scoped Value :=
  Scoped.read fun env => do
    let indices ← resolveIndices s.indices own env
    s.params.get name indices

end Scope

namespace Term

/-- Compiles a body once for each element of a domain, with the index bound to it. -/
def compileOver (index : String) (body : Scoped Expression) : List Value → Scoped (List Expression)
  | [] => pure []
  | element :: rest => do
      let e ← Bindings.within index element.display body
      let es ← compileOver index body rest
      return e :: es

mutual

/-- Compiles a term into an expression. -/
def compile (s : Scope) : Term → Scoped Expression
  | var name indices => do
      let h ← s.resolveVariable name indices
      return h.toExpression
  | param name indices => do
      let v ← s.resolveParameter name indices
      return .native v
  | const v => pure (.native v)
  | raw text => Scoped.lift (.error (.documentationOnly text))
  | index name => do
      let element ← Scoped.read fun env => env.resolve name
      return .native (.text element)
  | add terms => do
      let es ← compileAll s terms
      Scoped.lift (Expression.addAll es)
  | mul factors => do
      let es ← compileAll s factors
      Scoped.lift (Expression.mulAll es)
  | pow base exponent => do
      let a ← compile s base
      let b ← compile s exponent
      Scoped.lift (a.pow b)
  | div numerator denominator => do
      let a ← compile s numerator
      let b ← compile s denominator
      Scoped.lift (a.div b)
  | neg body => do
      let a ← compile s body
      Scoped.lift a.negate
  | sum i domain body =>
      if domain.isEmpty then Scoped.lift (.error (.emptyDomain "ESum" i))
      else do
        let es ← compileOver i (compile s body) domain
        Scoped.lift (Expression.addAll es)
  | prod i domain body =>
      if domain.isEmpty then Scoped.lift (.error (.emptyDomain "EProd" i))
      else do
        let es ← compileOver i (compile s body) domain
        Scoped.lift (Expression.mulAll es)
  | eq _ _ => Scoped.lift (.error (.unsupportedTerm "EEq"))
  | plain v => Scoped.lift (.error (.unsupportedTerm v.kind))
termination_by structural t => t

/-- Compiles a list of terms, from the left. -/
def compileAll (s : Scope) : List Term → Scoped (List Expression)
  | [] => pure []
  | t :: ts => do
      let e ← compile s t
      let es ← compileAll s ts
      return e :: es
termination_by structural ts => ts

end

end Term

namespace Pairing

/-- Resolves the complementary variable of an equation, given as a reference or as a registered
name. -/
def compile (s : Scope) : Term → Scoped Handle
  | .var name indices => s.resolveVariable name indices
  | .plain (.text name) => Scoped.lift (s.handle name [])
  | t => Scoped.lift (.error (.unsupportedPairing t.quoted))

theorem compile_restores (s : Scope) (t : Term) (env : Bindings) : (compile s t env).2 = env := by
  unfold compile
  split
  · exact Bindings.read_restores _ env
  · exact Bindings.lift_restores _ env
  · exact Bindings.lift_restores _ env

end Pairing

namespace Term

theorem compileOver_restores {index : String} {body : Scoped Expression}
    (h : ∀ env, (body env).2 = env) (domain : List Value) (env : Bindings) :
    (compileOver index body domain env).2 = env := by
  induction domain generalizing env with
  | nil => rfl
  | cons element rest ih =>
      exact Bindings.bind_restores (Bindings.within_restores h index element.display)
        (fun _ => Bindings.bind_restores ih fun _ _ => rfl) env

mutual

/-- Compiling leaves the bindings as they were, also when it fails. -/
theorem compile_restores (s : Scope) : ∀ (t : Term) (env : Bindings), (compile s t env).2 = env
  | var name indices, env =>
      Bindings.bind_restores (Bindings.read_restores _) (fun _ _ => rfl) env
  | param name indices, env =>
      Bindings.bind_restores (Bindings.read_restores _) (fun _ _ => rfl) env
  | const _, _ => rfl
  | raw _, _ => rfl
  | index name, env =>
      Bindings.bind_restores (Bindings.read_restores _) (fun _ _ => rfl) env
  | add terms, env =>
      Bindings.bind_restores (compileAll_restores s terms) (fun _ _ => rfl) env
  | mul factors, env =>
      Bindings.bind_restores (compileAll_restores s factors) (fun _ _ => rfl) env
  | pow a b, env =>
      Bindings.bind_restores (compile_restores s a)
        (fun _ => Bindings.bind_restores (compile_restores s b) fun _ _ => rfl) env
  | div a b, env =>
      Bindings.bind_restores (compile_restores s a)
        (fun _ => Bindings.bind_restores (compile_restores s b) fun _ _ => rfl) env
  | neg a, env =>
      Bindings.bind_restores (compile_restores s a) (fun _ _ => rfl) env
  | sum _ domain body, env => by
      rw [compile]
      split
      · rfl
      · exact Bindings.bind_restores (compileOver_restores (compile_restores s body) domain)
          (fun _ _ => rfl) env
  | prod _ domain body, env => by
      rw [compile]
      split
      · rfl
      · exact Bindings.bind_restores (compileOver_restores (compile_restores s body) domain)
          (fun _ _ => rfl) env
  | eq _ _, _ => rfl
  | plain _, _ => rfl
termination_by structural t => t

theorem compileAll_restores (s : Scope) :
    ∀ (ts : List Term) (env : Bindings), (compileAll s ts env).2 = env
  | [], _ => rfl
  | t :: ts, env =>
      Bindings.bind_restores (compile_restores s t)
        (fun _ => Bindings.bind_restores (compileAll_restores s ts) fun _ _ => rfl) env
termination_by structural ts => ts

end

end Term

end Equilibrium

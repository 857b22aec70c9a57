/-
What a term compiles to, read as a function of the bindings.

Compiling threads the bindings through the whole term, but it leaves them as it found them. So what
a term compiles to depends on the bindings it starts with and on nothing else, and the parts of a
term can be compiled independently:

* `Scoped.fst_bind` - a step that restores the bindings passes on its result only;
* `Term.induction` - induction on terms, where a list of parts gives an assumption for each of them;
* `Term.compiled_add`, `Term.compiled_sum`, … - what each kind of term compiles to, from what its
  parts compile to.

Later modules reason about `Term.compiled` and never look at how the bindings are threaded.
-/
import Equilibrium.Compilation
import Equilibrium.Proofs.Results

namespace Equilibrium

/-- The result of a computation that goes on after a step which restores the bindings. -/
theorem Scoped.fst_bind {α β : Type} {x : Scoped α} {f : α → Scoped β}
    (hx : ∀ env, (x env).2 = env) (env : Bindings) :
    ((x >>= f) env).1 = (x env).1 >>= fun a => (f a env).1 := by
  have h := hx env
  show (Scoped.andThen x f env).1 = _
  rw [Scoped.andThen]
  rcases hr : x env with ⟨_ | a, after⟩
  · rfl
  · rw [hr] at h
    show (f a after).1 = (f a env).1
    rw [show after = env from h]

namespace Term

/-- Induction on terms. A sum or product of a list of terms comes with an assumption for each of
them. -/
@[elab_as_elim, induction_eliminator]
theorem induction {motive : Term → Prop}
    (var : ∀ name own, motive (.var name own))
    (param : ∀ name own, motive (.param name own))
    (const : ∀ v, motive (.const v))
    (raw : ∀ text, motive (.raw text))
    (index : ∀ name, motive (.index name))
    (add : ∀ terms, (∀ t ∈ terms, motive t) → motive (.add terms))
    (mul : ∀ factors, (∀ t ∈ factors, motive t) → motive (.mul factors))
    (pow : ∀ base exponent, motive base → motive exponent → motive (.pow base exponent))
    (div : ∀ numerator denominator, motive numerator → motive denominator →
      motive (.div numerator denominator))
    (neg : ∀ body, motive body → motive (.neg body))
    (sum : ∀ i domain body, motive body → motive (.sum i domain body))
    (prod : ∀ i domain body, motive body → motive (.prod i domain body))
    (eq : ∀ lhs rhs, motive lhs → motive rhs → motive (.eq lhs rhs))
    (plain : ∀ v, motive (.plain v)) (t : Term) : motive t := by
  have ih : ∀ u : Term, sizeOf u < sizeOf t → motive u := fun u _ =>
    induction var param const raw index add mul pow div neg sum prod eq plain u
  cases t with
  | var name own => exact var name own
  | param name own => exact param name own
  | const v => exact const v
  | raw text => exact raw text
  | index name => exact index name
  | add terms =>
    refine add terms fun u hu => ih u ?_
    have := List.sizeOf_lt_of_mem hu
    simp only [Term.add.sizeOf_spec]
    omega
  | mul factors =>
    refine mul factors fun u hu => ih u ?_
    have := List.sizeOf_lt_of_mem hu
    simp only [Term.mul.sizeOf_spec]
    omega
  | pow a b =>
    refine pow a b (ih a ?_) (ih b ?_)
    all_goals
      rw [Term.pow.sizeOf_spec]
      omega
  | div a b =>
    refine div a b (ih a ?_) (ih b ?_)
    all_goals
      rw [Term.div.sizeOf_spec]
      omega
  | neg a => exact neg a (ih a (by simp))
  | sum i domain body =>
    refine sum i domain body (ih body ?_)
    rw [Term.sum.sizeOf_spec]
    omega
  | prod i domain body =>
    refine prod i domain body (ih body ?_)
    rw [Term.prod.sizeOf_spec]
    omega
  | eq a b =>
    refine eq a b (ih a ?_) (ih b ?_)
    all_goals
      rw [Term.eq.sizeOf_spec]
      omega
  | plain v => exact plain v
termination_by sizeOf t

/-- What a term compiles to under some bindings. -/
def compiled (s : Scope) (env : Bindings) (t : Term) : Except Fault Expression :=
  (t.compile s env).1

variable (s : Scope) (env : Bindings)

/-! ### References and constants -/

theorem compiled_var (name : String) (own : Option (List IndexEntry)) :
    compiled s env (.var name own) =
      (Scope.resolveIndices s.indices own env >>= s.handle name).map Handle.toExpression := by
  have h : ∀ env, (s.resolveVariable name own env).2 = env := Bindings.read_restores _
  rw [compiled, compile, Scoped.fst_bind h]
  show (Scope.resolveIndices s.indices own env >>= s.handle name) >>= _ = _
  cases Scope.resolveIndices s.indices own env >>= s.handle name <;> rfl

theorem compiled_param (name : String) (own : Option (List IndexEntry)) :
    compiled s env (.param name own) =
      (Scope.resolveIndices s.indices own env >>= s.params.get name).map .native := by
  have h : ∀ env, (s.resolveParameter name own env).2 = env := Bindings.read_restores _
  rw [compiled, compile, Scoped.fst_bind h]
  show (Scope.resolveIndices s.indices own env >>= s.params.get name) >>= _ = _
  cases Scope.resolveIndices s.indices own env >>= s.params.get name <;> rfl

theorem compiled_const (v : Value) : compiled s env (.const v) = .ok (.native v) := rfl

theorem compiled_index (name : String) :
    compiled s env (.index name) = (env.resolve name).map fun e => .native (.text e) := by
  rw [compiled, compile, Scoped.fst_bind (Bindings.read_restores _)]
  show env.resolve name >>= _ = _
  cases env.resolve name <;> rfl

/-! ### Lists of terms -/

theorem compileAll_fst (terms : List Term) :
    (compileAll s terms env).1 = terms.mapM (compiled s env) := by
  induction terms with
  | nil => rfl
  | cons t rest ih =>
    rw [compileAll, Scoped.fst_bind (compile_restores s t), List.mapM_cons]
    refine bind_congr fun e => ?_
    rw [Scoped.fst_bind (compileAll_restores s rest), ih]
    rfl

theorem compiled_add (terms : List Term) :
    compiled s env (.add terms) = terms.mapM (compiled s env) >>= Expression.addAll := by
  rw [compiled, compile, Scoped.fst_bind (compileAll_restores s terms), compileAll_fst]
  rfl

theorem compiled_mul (factors : List Term) :
    compiled s env (.mul factors) = factors.mapM (compiled s env) >>= Expression.mulAll := by
  rw [compiled, compile, Scoped.fst_bind (compileAll_restores s factors), compileAll_fst]
  rfl

/-! ### Powers, quotients and negatives -/

theorem compiled_pow (base exponent : Term) :
    compiled s env (.pow base exponent) =
      compiled s env base >>= fun a => compiled s env exponent >>= fun b => a.pow b := by
  rw [compiled, compile, Scoped.fst_bind (compile_restores s base)]
  refine bind_congr fun a => ?_
  rw [Scoped.fst_bind (compile_restores s exponent)]
  rfl

theorem compiled_div (numerator denominator : Term) :
    compiled s env (.div numerator denominator) =
      compiled s env numerator >>= fun a => compiled s env denominator >>= fun b => a.div b := by
  rw [compiled, compile, Scoped.fst_bind (compile_restores s numerator)]
  refine bind_congr fun a => ?_
  rw [Scoped.fst_bind (compile_restores s denominator)]
  rfl

theorem compiled_neg (body : Term) :
    compiled s env (.neg body) = compiled s env body >>= Expression.negate := by
  rw [compiled, compile, Scoped.fst_bind (compile_restores s body)]
  rfl

/-! ### Sums and products over a domain -/

/-- A body is compiled once for each element, each time under the bindings of the whole sum or
product and that one element. -/
theorem compileOver_fst (i : String) (body : Term) (domain : List Value) :
    (compileOver i (compile s body) domain env).1 =
      domain.mapM fun v => compiled s (env.bind i v.display) body := by
  induction domain with
  | nil => rfl
  | cons v rest ih =>
    rw [compileOver, List.mapM_cons,
      Scoped.fst_bind (Bindings.within_restores (compile_restores s body) i v.display)]
    refine bind_congr fun e => ?_
    rw [Scoped.fst_bind (compileOver_restores (compile_restores s body) rest), ih]
    rfl

theorem compiled_sum (i : String) (domain : List Value) (body : Term) :
    compiled s env (.sum i domain body) =
      if domain.isEmpty then .error (.emptyDomain "ESum" i)
      else (domain.mapM fun v => compiled s (env.bind i v.display) body) >>=
        Expression.addAll := by
  rw [compiled, compile]
  split
  · rfl
  · rw [Scoped.fst_bind (compileOver_restores (compile_restores s body) domain), compileOver_fst]
    rfl

theorem compiled_prod (i : String) (domain : List Value) (body : Term) :
    compiled s env (.prod i domain body) =
      if domain.isEmpty then .error (.emptyDomain "EProd" i)
      else (domain.mapM fun v => compiled s (env.bind i v.display) body) >>=
        Expression.mulAll := by
  rw [compiled, compile]
  split
  · rfl
  · rw [Scoped.fst_bind (compileOver_restores (compile_restores s body) domain), compileOver_fst]
    rfl

end Term

end Equilibrium

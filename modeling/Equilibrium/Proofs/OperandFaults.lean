/-
What can go wrong with operands.

An operation on values that are known fails only for the operands themselves: it divides by zero,
its result is out of range, or it does not apply to operands of these kinds. All operations with
which the compiler combines the parts of a term are of this sort:

* `Fault.IsArithmetic`, `Arithmetic` - the faults of operands, and results that fail with no other;
* `Arithmetic.bind`, `Arithmetic.mapM`, `Arithmetic.foldlM` - steps that fail with no other do not
  fail with another one together;
* `Number.arithmetic_pow`, `Value.arithmetic_mul`, … - the operations on numbers and on values;
* `Expression.arithmetic_add`, … - the operations on expressions, and those on lists of them.
-/
import Equilibrium.Expression
import Equilibrium.Proofs.Results

namespace Equilibrium

/-- A fault of the operands of an operation. -/
def Fault.IsArithmetic (f : Fault) : Prop := f = .divisionByZero ∨ f = .overflow ∨ f = .illTyped

/-- A result that is given, or refused for the operands. -/
def Arithmetic {α : Type} (x : Except Fault α) : Prop := ∀ f, x = .error f → f.IsArithmetic

namespace Arithmetic

variable {α β : Type}

theorem ok (a : α) : Arithmetic (.ok a) := by
  intro f h
  simp at h

theorem divisionByZero : Arithmetic (.error .divisionByZero : Except Fault α) := by
  rintro f ⟨⟩
  exact .inl rfl

theorem overflow : Arithmetic (.error .overflow : Except Fault α) := by
  rintro f ⟨⟩
  exact .inr (.inl rfl)

theorem illTyped : Arithmetic (.error .illTyped : Except Fault α) := by
  rintro f ⟨⟩
  exact .inr (.inr rfl)

theorem bind_of_ok {x : Except Fault α} {g : α → Except Fault β} (hx : Arithmetic x)
    (hg : ∀ a, x = .ok a → Arithmetic (g a)) : Arithmetic (x >>= g) := by
  cases x with
  | error e => exact fun f h => hx f (by simpa [Bind.bind, Except.bind] using h)
  | ok a => exact hg a rfl

theorem bind {x : Except Fault α} {g : α → Except Fault β} (hx : Arithmetic x)
    (hg : ∀ a, Arithmetic (g a)) : Arithmetic (x >>= g) := hx.bind_of_ok fun a _ => hg a

theorem map {x : Except Fault α} (hx : Arithmetic x) (g : α → β) : Arithmetic (x.map g) := by
  cases x with
  | error e => exact fun f h => hx f (by simpa [Except.map] using h)
  | ok a => exact ok (g a)

theorem ite {p : Prop} [Decidable p] {x y : Except Fault α} (hx : Arithmetic x)
    (hy : Arithmetic y) : Arithmetic (if p then x else y) := by
  split
  · exact hx
  · exact hy

theorem mapM {g : α → Except Fault β} {items : List α} (hg : ∀ a ∈ items, Arithmetic (g a)) :
    Arithmetic (items.mapM g) := by
  induction items with
  | nil => exact ok []
  | cons a rest ih =>
    rw [List.mapM_cons]
    refine (hg a List.mem_cons_self).bind fun b => ?_
    exact (ih fun c hc => hg c (List.mem_cons_of_mem a hc)).bind fun bs => ok (b :: bs)

theorem foldlM {op : β → α → Except Fault β} (hop : ∀ b a, Arithmetic (op b a)) (items : List α)
    (b : β) : Arithmetic (items.foldlM op b) := by
  induction items generalizing b with
  | nil => exact ok b
  | cons a rest ih =>
    rw [List.foldlM_cons]
    exact (hop b a).bind ih

end Arithmetic

/-! ### Numbers -/

namespace Complex

theorem arithmetic_bounded (c : Complex) : Arithmetic c.bounded := .ite .overflow (.ok c)

theorem arithmetic_div (a b : Complex) : Arithmetic (a.div b) :=
  .ite .divisionByZero (.ite (.ok _) (.ok _))

theorem arithmetic_pow (a b : Complex) : Arithmetic (a.pow b) := by
  refine .ite (.ok _) (.ite (.ite .divisionByZero (.ok _)) ?_)
  split
  · exact .ite (arithmetic_bounded _) ((arithmetic_div _ _).bind arithmetic_bounded)
  · exact .ite .divisionByZero (arithmetic_bounded _)

end Complex

namespace Number

theorem arithmetic_realOfInt (n : Int) : Arithmetic (realOfInt n) := .ite .overflow (.ok _)

theorem arithmetic_toReal (a : Number) : Arithmetic a.toReal := by
  cases a with
  | int n => exact arithmetic_realOfInt n
  | real x => exact .ok x
  | complex z => exact .illTyped

theorem arithmetic_toComplex (a : Number) : Arithmetic a.toComplex := by
  cases a with
  | int n => exact (arithmetic_realOfInt n).map _
  | real x => exact .ok _
  | complex z => exact .ok z

theorem arithmetic_lift {onInt : Int → Int → Except Fault Number}
    {onReal : Float → Float → Except Fault Number}
    {onComplex : Complex → Complex → Except Fault Number} (hint : ∀ a b, Arithmetic (onInt a b))
    (hreal : ∀ x y, Arithmetic (onReal x y)) (hcomplex : ∀ z w, Arithmetic (onComplex z w))
    (a b : Number) : Arithmetic (lift onInt onReal onComplex a b) := by
  unfold lift
  split
  · exact hint _ _
  · refine .ite ?_ ?_
    · exact (arithmetic_toComplex a).bind fun z => (arithmetic_toComplex b).bind (hcomplex z)
    · exact (arithmetic_toReal a).bind fun x => (arithmetic_toReal b).bind (hreal x)

theorem arithmetic_add (a b : Number) : Arithmetic (a.add b) :=
  arithmetic_lift (fun _ _ => .ok _) (fun _ _ => .ok _) (fun _ _ => .ok _) a b

theorem arithmetic_mul (a b : Number) : Arithmetic (a.mul b) :=
  arithmetic_lift (fun _ _ => .ok _) (fun _ _ => .ok _) (fun _ _ => .ok _) a b

theorem arithmetic_div (a b : Number) : Arithmetic (a.div b) :=
  arithmetic_lift (fun _ _ => .ite .divisionByZero (.ite .overflow (.ok _)))
    (fun _ _ => .ite .divisionByZero (.ok _)) (fun z w => (z.arithmetic_div w).map _) a b

theorem arithmetic_powReal (x y : Float) : Arithmetic (powReal x y) := by
  have hfinite : Arithmetic (powFinite x y) :=
    .ite ((Complex.arithmetic_pow _ _).map _) (.ite .overflow (.ok _))
  refine .ite (.ok _) (.ite (.ok _) (.ite (.ok _) (.ite ?_ (.ite ?_ (.ite ?_ hfinite)))))
  · exact .ite (.ok _) (.ite (.ok _) (.ok _))
  · exact .ite (.ok _) (.ok _)
  · exact .ite .divisionByZero (.ok _)

theorem arithmetic_pow (a b : Number) : Arithmetic (a.pow b) := by
  refine arithmetic_lift (fun m n => .ite (.ok _) ?_) arithmetic_powReal
    (fun z w => (z.arithmetic_pow w).map _) a b
  exact (arithmetic_realOfInt m).bind fun x => (arithmetic_realOfInt n).bind (arithmetic_powReal x)

end Number

/-! ### Values -/

namespace Value

theorem arithmetic_onNumbers {op : Number → Number → Except Fault Number}
    (hop : ∀ m n, Arithmetic (op m n)) (a b : Value) : Arithmetic (onNumbers op a b) := by
  unfold onNumbers
  split
  · exact (hop _ _).map _
  · exact .illTyped

theorem arithmetic_add (a b : Value) : Arithmetic (a.add b) := by
  unfold add
  split
  · exact .ok _
  · exact .ok _
  · exact arithmetic_onNumbers Number.arithmetic_add _ _

theorem arithmetic_repeatItems {α : Type} (items : List α) (n : Int) :
    Arithmetic (repeatItems items n) := .ite .overflow (.ite (.ok _) (.ok _))

theorem arithmetic_mul (a b : Value) : Arithmetic (a.mul b) := by
  unfold mul
  split
  · exact (arithmetic_repeatItems _ _).map _
  · exact (arithmetic_repeatItems _ _).map _
  · exact (arithmetic_repeatItems _ _).map _
  · exact (arithmetic_repeatItems _ _).map _
  · exact arithmetic_onNumbers Number.arithmetic_mul _ _

theorem arithmetic_div (a b : Value) : Arithmetic (a.div b) :=
  arithmetic_onNumbers Number.arithmetic_div a b

theorem arithmetic_pow (a b : Value) : Arithmetic (a.pow b) :=
  arithmetic_onNumbers Number.arithmetic_pow a b

theorem arithmetic_neg (a : Value) : Arithmetic a.neg := by
  unfold neg
  split
  · exact .ok _
  · exact .illTyped

end Value

/-! ### Expressions -/

namespace Expression

theorem arithmetic_requireNumber (a : Expression) : Arithmetic a.requireNumber := by
  unfold requireNumber
  split
  · exact .ok _
  · exact .illTyped
  · exact .ok _

theorem arithmetic_add (a b : Expression) : Arithmetic (a.add b) := by
  unfold add
  split
  · exact (Value.arithmetic_add _ _).map _
  · refine (arithmetic_requireNumber a).bind fun _ => (arithmetic_requireNumber b).bind fun _ => ?_
    exact .ite (.ok _) (.ite (.ok _) (.ok _))

theorem arithmetic_negate (a : Expression) : Arithmetic a.negate := by
  unfold negate
  split
  · exact (Value.arithmetic_neg _).map _
  all_goals exact .ok _

theorem arithmetic_scale {n : Number} {scaled : Number → Except Fault Number}
    (hscaled : ∀ c, Arithmetic (scaled c)) (e whole : Expression) :
    Arithmetic (scale n scaled e whole) := by
  unfold scale
  split
  · exact .ok _
  · exact (hscaled _).map _
  · exact .ok _

theorem arithmetic_mul (a b : Expression) : Arithmetic (a.mul b) := by
  unfold mul
  split
  · exact (Value.arithmetic_mul _ _).map _
  · exact .ite (.ok _) (arithmetic_scale (Number.arithmetic_mul _) _ _)
  · exact .ite (.ok _) (arithmetic_scale (fun c => c.arithmetic_mul _) _ _)
  · exact .illTyped
  · exact .illTyped
  · exact .ok _

theorem arithmetic_div (a b : Expression) : Arithmetic (a.div b) := by
  unfold div
  split
  · exact (Value.arithmetic_div _ _).map _
  · refine .ite (.ok _) ?_
    split
    · exact (Number.arithmetic_div _ _).map _
    · exact (Number.arithmetic_div _ _).map _
    · exact .ite .divisionByZero (.ok _)
  · exact .illTyped
  · exact .ok _
  · exact .illTyped
  · exact .ok _

theorem arithmetic_pow (a b : Expression) : Arithmetic (a.pow b) := by
  unfold pow
  split
  · exact (Value.arithmetic_pow _ _).map _
  · refine (arithmetic_requireNumber a).bind fun _ => (arithmetic_requireNumber b).bind fun _ => ?_
    exact .ite (.ok _) (.ok _)

theorem arithmetic_addAll (es : List Expression) : Arithmetic (addAll es) := by
  cases es with
  | nil => exact .ok _
  | cons e rest => exact .foldlM arithmetic_add rest e

theorem arithmetic_mulAll {es : List Expression} (h : es ≠ []) : Arithmetic (mulAll es) := by
  cases es with
  | nil => exact absurd rfl h
  | cons e rest => exact .foldlM arithmetic_mul rest e

end Expression

end Equilibrium

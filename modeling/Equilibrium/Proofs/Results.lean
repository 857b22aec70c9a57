/-
Results that may be faults.

A computation that goes on after others succeeds only if each of them does. The lemmas here take a
successful result apart into those of its steps, and the steps over a list into the ones for its
items:

* `bind_eq_ok`, `map_eq_ok` - a result that goes on with, or is made from, another one;
* `bind_mono`, `map_mono`, `mapM_mono` - a result stays the same where the steps that succeed give
  the same;
* `mapM_congr_of_mem`, `mapM_eq_ok`, `forall₂_of_mapM` - the results of a list of steps.
-/
import Equilibrium.Fault
import Mathlib.Data.List.Forall2

namespace Equilibrium

variable {α β γ : Type}

theorem bind_eq_ok {x : Except Fault α} {f : α → Except Fault β} {b : β} :
    x >>= f = .ok b ↔ ∃ a, x = .ok a ∧ f a = .ok b := by
  cases x with
  | error e => simp [bind, Except.bind]
  | ok a => simp [bind, Except.bind]

theorem map_eq_ok {x : Except Fault α} {f : α → β} {b : β} :
    x.map f = .ok b ↔ ∃ a, x = .ok a ∧ f a = b := by
  cases x with
  | error e => simp [Except.map]
  | ok a => simp [Except.map]

theorem bind_mono {x y : Except Fault α} {f g : α → Except Fault β} {b : β}
    (h : x >>= f = .ok b) (hxy : ∀ a, x = .ok a → y = .ok a)
    (hfg : ∀ a, f a = .ok b → g a = .ok b) : y >>= g = .ok b := by
  obtain ⟨a, hx, hf⟩ := bind_eq_ok.mp h
  exact bind_eq_ok.mpr ⟨a, hxy a hx, hfg a hf⟩

theorem map_mono {x y : Except Fault α} {f : α → β} {b : β} (h : x.map f = .ok b)
    (hxy : ∀ a, x = .ok a → y = .ok a) : y.map f = .ok b := by
  obtain ⟨a, hx, hf⟩ := map_eq_ok.mp h
  exact map_eq_ok.mpr ⟨a, hxy a hx, hf⟩

theorem mapM_mono {f g : α → Except Fault β} {items : List α} {results : List β}
    (h : items.mapM f = .ok results) (hfg : ∀ a ∈ items, ∀ b, f a = .ok b → g a = .ok b) :
    items.mapM g = .ok results := by
  induction items generalizing results with
  | nil => exact h
  | cons a rest ih =>
    rw [List.mapM_cons] at h ⊢
    refine bind_mono h (hfg a List.mem_cons_self) fun b hb => ?_
    exact bind_mono hb (fun bs hbs => ih hbs fun c hc => hfg c (List.mem_cons_of_mem a hc))
      fun _ hresult => hresult

/-- Steps that agree on every item of a list give the same results for the list. -/
theorem mapM_congr_of_mem {f g : α → Except Fault β} {items : List α}
    (h : ∀ a ∈ items, f a = g a) : items.mapM f = items.mapM g := by
  induction items with
  | nil => rfl
  | cons a rest ih =>
    rw [List.mapM_cons, List.mapM_cons, h a List.mem_cons_self,
      ih fun b hb => h b (List.mem_cons_of_mem a hb)]

/-- The steps for a list succeed exactly if each of them does, with its own result. -/
theorem mapM_eq_ok {f : α → Except Fault β} {items : List α} {results : List β} :
    items.mapM f = .ok results ↔ List.Forall₂ (fun a b => f a = .ok b) items results := by
  induction items generalizing results with
  | nil =>
    rw [List.mapM_nil, List.forall₂_nil_left_iff]
    exact ⟨fun h => (Except.ok.inj h).symm, fun h => congrArg Except.ok h.symm⟩
  | cons a rest ih =>
    rw [List.mapM_cons, List.forall₂_cons_left_iff, bind_eq_ok]
    constructor
    · rintro ⟨b, hb, h⟩
      obtain ⟨bs, hbs, h⟩ := bind_eq_ok.mp h
      exact ⟨b, bs, hb, ih.mp hbs, (Except.ok.inj h).symm⟩
    · rintro ⟨b, bs, hb, hbs, rfl⟩
      exact ⟨b, hb, bind_eq_ok.mpr ⟨bs, ih.mpr hbs, rfl⟩⟩

theorem exists_of_mapM {f : α → Except Fault β} {items : List α} {results : List β}
    (h : items.mapM f = .ok results) {a : α} (ha : a ∈ items) : ∃ b, f a = .ok b := by
  induction items generalizing results with
  | nil => simp at ha
  | cons a' rest ih =>
    rw [List.mapM_cons] at h
    obtain ⟨b, hb, h⟩ := bind_eq_ok.mp h
    obtain ⟨bs, hbs, -⟩ := bind_eq_ok.mp h
    rcases List.mem_cons.mp ha with rfl | hrest
    · exact ⟨b, hb⟩
    · exact ih hbs hrest

theorem ne_nil_of_mapM {f : α → Except Fault β} {items : List α} {results : List β}
    (h : items.mapM f = .ok results) (hitems : items ≠ []) : results ≠ [] := by
  rintro rfl
  exact hitems (List.forall₂_nil_right_iff.mp (mapM_eq_ok.mp h))

/-- Where the steps for a list succeed, what holds of the result of each step holds of all results
together. -/
theorem forall₂_of_mapM {f : α → Except Fault β} {g : α → γ} {R : γ → β → Prop} {items : List α}
    {results : List β} (h : items.mapM f = .ok results)
    (hR : ∀ a ∈ items, ∀ b, f a = .ok b → R (g a) b) :
    List.Forall₂ R (items.map g) results := by
  induction items generalizing results with
  | nil =>
    cases h
    exact .nil
  | cons a rest ih =>
    rw [List.mapM_cons] at h
    obtain ⟨b, hb, h⟩ := bind_eq_ok.mp h
    obtain ⟨bs, hbs, h⟩ := bind_eq_ok.mp h
    cases h
    refine .cons (hR a List.mem_cons_self b hb) (ih hbs fun c hc => ?_)
    exact hR c (List.mem_cons_of_mem a hc)

theorem exists_of_forall₂ {R : α → β → Prop} {as : List α} {bs : List β}
    (h : List.Forall₂ R as bs) {a : α} (ha : a ∈ as) : ∃ b ∈ bs, R a b := by
  induction h with
  | nil => cases ha
  | cons hab _ ih =>
    rcases List.mem_cons.mp ha with rfl | hrest
    · exact ⟨_, List.mem_cons_self, hab⟩
    · obtain ⟨b, hb, hR⟩ := ih hrest
      exact ⟨b, List.mem_cons_of_mem _ hb, hR⟩

end Equilibrium

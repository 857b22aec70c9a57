/-
What a reference stands for.

The variable of an instance is registered under one name, in which the base name and the elements of
the instance are joined by a separator, and a reference is looked up under the name that is joined
from its own base name and elements. A reference to a declared instance finds the variable of that
instance. But joining forgets where one part ends: a part that contains the separator may stand for
several, and a reference may find the variable of another instance with the same joined name.

* `qualifiedName_injective` - a joined name gives back its parts where the elements contain no
  separator, and either the base names contain none or there are equally many elements;
* `EquationSystem.get?_registry_of_build` - the names that a block registers;
* `reference_resolves_by_joined_name` - what a reference finds in a system built from a block;
* `reference_finds_other_instance` - it need not be the instance that it names.
-/
import Equilibrium.Proofs.Assembly
import Equilibrium.Proofs.JoinedTexts
import Equilibrium.Proofs.WellFormedTerms

namespace Equilibrium

open Equilibrium.Action EquationSystem

/-! ### Joined names -/

/-- The separator does not occur. -/
def Unseparated (s : String) : Prop := '_' ∉ s.toList

/-- A joined name gives back its parts if no element is separated, and there are equally many
elements or no base name is separated either. -/
theorem qualifiedName_injective {base base' : String} {indices indices' : List String}
    (h : qualifiedName base indices = qualifiedName base' indices')
    (hindices : ∀ i ∈ indices, Unseparated i) (hindices' : ∀ i ∈ indices', Unseparated i)
    (hbase : indices.length = indices'.length ∨ Unseparated base ∧ Unseparated base') :
    base = base' ∧ indices = indices' := by
  have hseparable : Text.Separable '_' (base :: indices) (base' :: indices') := by
    rcases hbase with hlength | ⟨hb, hb'⟩
    · refine .aligned 0 (congrArg (· + 1) hlength) ?_
      show indices.map (Text.occurrences '_') = indices'.map (Text.occurrences '_')
      rw [Text.map_occurrences_of_not_mem hindices, Text.map_occurrences_of_not_mem hindices',
        hlength]
    · exact .free (List.forall_mem_cons.mpr ⟨hb, hindices⟩)
        (List.forall_mem_cons.mpr ⟨hb', hindices'⟩)
  exact List.cons.inj (Text.join_injective hseparable h)

/-! ### References to declared variables -/

/-- The indices of a reference are looked up in one way only. -/
theorem Scope.IndicesOf.unique {s : Scope} {env : Bindings} {own : Option (List IndexEntry)}
    {found found' : List String} (h : s.IndicesOf env own found) (h' : s.IndicesOf env own found') :
    found = found' :=
  Except.ok.inj ((resolveIndices_eq_ok.mpr h).symm.trans (resolveIndices_eq_ok.mpr h'))

namespace EquationSystem

variable {b : Block} {shared : Source} {name : Option String} {t : EquationSystem}

/-- A block that builds into a new system leaves its own variables there, and no others. -/
theorem eq_withVariables_of_build
    (h : (b.build shared).effect (new (name.map Model.empty)) = (t, .ok ())) :
    ∃ s, t = EquationSystem.withVariables s b.declaredVariables ∧
      (b.declaredVariables.map Variable.name).Nodup := by
  rw [new_eq_withVariables] at h
  have hnil : (([] : List Variable).map Variable.name).Nodup := List.nodup_nil
  obtain ⟨rfl, hnames⟩ := Block.build_eq_ok hnil h
  exact ⟨_, rfl, hnames⟩

/-- The variables are listed like the instances. -/
theorem getElem?_vars_of_build
    (h : (b.build shared).effect (new (name.map Model.empty)) = (t, .ok ())) {id : VarId}
    {v : VariableSpec} {i : List String} (hd : b.declared[id]? = some (v, i)) :
    t.vars[id]? = some (v.variable i) := by
  obtain ⟨s, rfl, -⟩ := eq_withVariables_of_build h
  show b.declaredVariables[id]? = _
  rw [Block.declaredVariables, List.getElem?_map, hd]
  rfl

/-- A registered name is the joined name of an instance, and stands for the variable of that
instance. -/
theorem get?_registry_of_build
    (h : (b.build shared).effect (new (name.map Model.empty)) = (t, .ok ())) {joined : String}
    {handle : Handle} :
    t.registry.get? joined = some handle ↔
      ∃ v i id, b.declared[id]? = some (v, i) ∧ qualifiedName v.name i = joined ∧
        .ofVar id = handle := by
  obtain ⟨s, rfl, hnames⟩ := eq_withVariables_of_build h
  show (Table.ofVariables Handle.ofVar b.declaredVariables).get? joined = some handle ↔ _
  rw [Table.get?_ofVariables hnames]
  constructor
  · rintro ⟨id, v, hv, rfl, rfl⟩
    rw [Block.declaredVariables, List.getElem?_map] at hv
    obtain ⟨⟨spec, i⟩, hd, rfl⟩ := Option.map_eq_some_iff.mp hv
    exact ⟨spec, i, id, hd, (spec.name_variable i).symm, rfl⟩
  · rintro ⟨v, i, id, hd, rfl, rfl⟩
    refine ⟨id, v.variable i, ?_, v.name_variable i, rfl⟩
    rw [Block.declaredVariables, List.getElem?_map, hd]
    rfl

/-- A reference resolves to the variable of the instance with the same joined name. -/
theorem compiled_var_of_build
    (h : (b.build shared).effect (new (name.map Model.empty)) = (t, .ok ())) {params : Source}
    {indices : List String} {env : Bindings} {base : String} {own : Option (List IndexEntry)}
    {e : Expression} :
    Term.compiled (t.scope params indices) env (.var base own) = .ok e ↔
      ∃ found v i id, (t.scope params indices).IndicesOf env own found ∧
        b.declared[id]? = some (v, i) ∧ qualifiedName v.name i = qualifiedName base found ∧
        e = .var id := by
  rw [Term.compiled_var, map_eq_ok]
  constructor
  · rintro ⟨handle, hhandle, rfl⟩
    obtain ⟨found, hfound, hget⟩ := bind_eq_ok.mp hhandle
    obtain ⟨v, i, id, hd, hname, rfl⟩ :=
      (get?_registry_of_build h).mp (Scope.handle_eq_ok.mp hget)
    exact ⟨found, v, i, id, Scope.resolveIndices_eq_ok.mp hfound, hd, hname, rfl⟩
  · rintro ⟨found, v, i, id, hfound, hd, hname, rfl⟩
    refine ⟨.ofVar id, bind_eq_ok.mpr ⟨found, Scope.resolveIndices_eq_ok.mpr hfound, ?_⟩, rfl⟩
    exact Scope.handle_eq_ok.mpr ((get?_registry_of_build h).mpr ⟨v, i, id, hd, hname, rfl⟩)

end EquationSystem

/-- **A reference finds the instance with its joined name.** In a system that is built from a block,
a reference compiles exactly if its indices can be looked up and some declared instance has the
joined name of the reference; the result is the variable of that instance. The instance that the
reference names is found like this wherever it is declared. It is the only one that is, if no
element that is declared or referred to contains the separator, and either the base names contain
none or the instances have as many elements as the reference. -/
theorem reference_resolves_by_joined_name (b : Block) (shared : Source) (name : Option String)
    (t : EquationSystem)
    (hbuild : (b.build shared).effect (new (name.map Model.empty)) = (t, .ok ()))
    (params : Source) (indices : List String) (env : Bindings) (base : String)
    (own : Option (List IndexEntry)) :
    let scope := t.scope params indices
    let result := ((Term.var base own).compile scope env).1
    (∀ e, result = .ok e ↔ ∃ found v i id, scope.IndicesOf env own found ∧
      b.declared[id]? = some (v, i) ∧ qualifiedName v.name i = qualifiedName base found ∧
      e = .var id) ∧
    (∀ found v id, scope.IndicesOf env own found → b.declared[id]? = some (v, found) →
      v.name = base → result = .ok (.var id) ∧ t.vars[id]? = some (v.variable found)) ∧
    ∀ found, scope.IndicesOf env own found → (∀ element ∈ found, Unseparated element) →
      (∀ d ∈ b.declared, (∀ element ∈ d.2, Unseparated element) ∧
        (d.2.length = found.length ∨ Unseparated d.1.name ∧ Unseparated base)) →
      ∀ e, result = .ok e ↔ ∃ v id, b.declared[id]? = some (v, found) ∧ v.name = base ∧
        e = .var id := by
  intro scope result
  have hresult : ∀ e, result = .ok e ↔ ∃ found v i id, scope.IndicesOf env own found ∧
      b.declared[id]? = some (v, i) ∧ qualifiedName v.name i = qualifiedName base found ∧
      e = .var id := fun e => compiled_var_of_build hbuild
  refine ⟨hresult, ?_, ?_⟩
  · rintro found v id hfound hd rfl
    exact ⟨(hresult _).mpr ⟨found, v, found, id, hfound, hd, rfl, rfl⟩,
      getElem?_vars_of_build hbuild hd⟩
  · intro found hfound hplain hdeclared e
    rw [hresult]
    constructor
    · rintro ⟨found', v, i, id, hfound', hd, hname, rfl⟩
      obtain rfl : found = found' := hfound.unique hfound'
      obtain ⟨helements, hlength⟩ := hdeclared (v, i) (List.mem_of_getElem? hd)
      obtain ⟨hv, rfl⟩ := qualifiedName_injective hname helements hplain hlength
      exact ⟨v, id, hd, hv, rfl⟩
    · rintro ⟨v, id, hd, rfl, rfl⟩
      exact ⟨found, v, found, id, hfound, hd, rfl, rfl⟩

/-- A variable without bounds and values. -/
def plainVariable (name : String) (instances : List (List String)) : VariableSpec :=
  ⟨name, instances, none, none, none, none⟩

/-- Of `x` at `a` and at `b`, a free index that is bound to `b` finds the second one. Nothing is
separated in these names, so it is the only one to be found. -/
theorem reference_resolves_by_joined_name_of_free_index :
    let b : Block :=
      ⟨"goods", "", [plainVariable "x" [["a"], ["b"]], plainVariable "total" [[]]], []⟩
    let t := ((b.build .absent).effect (new ((some "model").map Model.empty))).1
    let env : Bindings := ⟨[("i", "b")]⟩
    (b.build .absent).effect (new ((some "model").map Model.empty)) = (t, .ok ()) ∧
      (t.scope .absent []).IndicesOf env (some [.free "i"]) ["b"] ∧
      ((Term.var "x" (some [.free "i"])).compile (t.scope .absent []) env).1 = .ok (.var 1) ∧
      ∃ v, b.declared[1]? = some (v, ["b"]) ∧ v.name = "x" := by
  intro b t env
  have hresult : ((b.build .absent).effect (new ((some "model").map Model.empty))).2 = .ok () := rfl
  have hbuild : (b.build .absent).effect (new ((some "model").map Model.empty)) = (t, .ok ()) :=
    Prod.ext rfl hresult
  have hindices : (t.scope .absent []).IndicesOf env (some [.free "i"]) ["b"] := .cons rfl .nil
  obtain ⟨-, hnamed, honly⟩ := reference_resolves_by_joined_name b .absent (some "model") t hbuild
    .absent [] env "x" (some [.free "i"])
  have hfound := (hnamed ["b"] (plainVariable "x" [["a"], ["b"]]) 1 hindices rfl rfl).1
  refine ⟨hbuild, hindices, hfound, ?_⟩
  have hdeclared : ∀ d ∈ b.declared, (∀ element ∈ d.2, Unseparated element) ∧
      (d.2.length = 1 ∨ Unseparated d.1.name ∧ Unseparated "x") := by
    simp [b, Block.declared, plainVariable, Unseparated]
  obtain ⟨v, id, hd, hv, hid⟩ :=
    (honly ["b"] hindices (by simp [Unseparated]) hdeclared _).mp hfound
  cases hid
  exact ⟨v, hd, hv⟩

/-- Where `x` is declared at the one element `a_b`, a reference to it at the elements `a` and `b`
finds that variable, though no instance of `x` has these elements. -/
theorem reference_finds_other_instance :
    let b : Block := ⟨"goods", "", [plainVariable "x" [["a_b"]]], []⟩
    let t := ((b.build .absent).effect (new (some (.empty "model")))).1
    let entries : List IndexEntry := [.literal (.text "a"), .literal (.text "b")]
    ((b.build .absent).effect (new (some (.empty "model")))).2 = .ok () ∧
      (t.scope .absent []).IndicesOf Table.empty (some entries) ["a", "b"] ∧
      ((Term.var "x" (some entries)).compile (t.scope .absent []) Table.empty).1 = .ok (.var 0) ∧
      ¬ ∃ v ∈ b.vars, v.name = "x" ∧ ["a", "b"] ∈ v.instances := by
  intro b t entries
  refine ⟨rfl, .cons rfl (.cons rfl .nil), rfl, ?_⟩
  simp [b, plainVariable]

end Equilibrium

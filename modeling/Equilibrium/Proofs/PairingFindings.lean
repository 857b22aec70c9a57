/-
What a validation says of complementary variables.

A pass makes an equality of an equation without a complementary variable, and a complementarity of
one with such a variable. A validation never looks at constraints: it tells from the payload of a
record whether an equation is to be compiled and whether a variable is missing. Both leave the same
records out, so after a pass over records without constraints they agree on every record.

* `Equation.isEquality_of_parts` - the kind of a compiled equation;
* `Record.Conforms` - the constraint of a record is of the kind that its payload asks for;
* `EquationSystem.conforms_of_update`, `EquationSystem.conforms_of_pass` - a pass over records
  without constraints leaves such records;
* `Validation.pairingFindings_of_paired`, `Validation.pairingFindings_of_not_paired` - what a
  validation finds in such records;
* `EquationSystem.pairing_findings_match_constraints` - it warns of the equalities among the records
  that may be paired, if one of these is paired at all.
-/
import Equilibrium.Proofs.Pass
import Equilibrium.Proofs.Validations
import Mathlib.Data.Prod.Basic

namespace Equilibrium

open Equilibrium.Action

/-! ### Kinds of constraints -/

theorem Shape.isEquality_equate (left right residual : Expression) :
    (equate left right residual).isEquality = true := by
  rw [equate]
  split
  · split <;> rfl
  · split <;> rfl

/-- Whatever the bounds of its variable are, a pair is a complementarity. -/
theorem Shape.isEquality_of_pair {residual : Expression} {id : VarId}
    {lower upper : Option Number} {shape : Shape}
    (h : pair residual id lower upper = .ok shape) : shape.isEquality = false := by
  cases lower with
  | none =>
    cases upper with
    | none =>
      cases h
      rfl
    | some u =>
      obtain ⟨second, -, rfl⟩ := map_eq_ok.mp h
      rfl
  | some l =>
    cases upper with
    | none =>
      obtain ⟨second, -, rfl⟩ := map_eq_ok.mp h
      rfl
    | some u =>
      cases h
      rfl

theorem Handle.isEquality_of_pair {vars : List Variable} {residual : Expression} {handle : Handle}
    {shape : Shape} (h : handle.pair vars residual = .ok shape) : shape.isEquality = false := by
  rw [Handle.pair] at h
  split at h
  · cases h
  · obtain ⟨lower, -, h⟩ := bind_eq_ok.mp h
    obtain ⟨upper, -, h⟩ := bind_eq_ok.mp h
    exact Shape.isEquality_of_pair h

/-- An equation becomes an equality exactly if it has no complementary variable. -/
theorem Equation.isEquality_of_parts {vars : List Variable} {s : Scope} {pairing : Option Term}
    {equation : Term} {env : Bindings} {p : Expression × Shape}
    (h : parts vars s pairing equation env = .ok p) : p.2.isEquality = pairing.isNone := by
  obtain ⟨lhs, rhs, left, right, -, -, -, -, hshape⟩ := parts_eq_ok h
  cases pairing with
  | none =>
    have hequate : Shape.equate left right p.1 = p.2 := Except.ok.inj hshape
    rw [← hequate]
    exact Shape.isEquality_equate left right p.1
  | some t =>
    rw [shape, Scoped.fst_bind (Pairing.compile_restores s t)] at hshape
    obtain ⟨handle, -, hpair⟩ := bind_eq_ok.mp hshape
    exact Handle.isEquality_of_pair hpair

/-! ### Records and their constraints -/

namespace Record

/-- A record without a constraint. -/
def IsUncompiled (r : Record) : Prop := r.structured?.bind Payload.constraint = none

/-- Whether a record carries a compiled equality. -/
def carriesEquality (r : Record) : Bool := r.compiled?.any fun c => c.shape.isEquality

/-- Whether a record carries a compiled complementarity. -/
def carriesComplementarity (r : Record) : Bool := r.compiled?.any fun c => !c.shape.isEquality

/-- Whether a record has a tag of those that need no complementary variable. -/
def isExempt (r : Record) : Bool := Validation.exemptTags.contains r.tag

/-- Whether a record with a structured payload names a complementary variable. -/
def isPaired (r : Record) : Bool := r.structured?.any fun p => p.pairing.isSome

/-- A structured record has a compiled constraint exactly if it has an equation to be compiled, and
the constraint is an equality exactly if no complementary variable is named. -/
def Conforms (r : Record) : Prop :=
  ∀ p, r.structured? = some p → p.compiled?.map (fun c => c.shape.isEquality) =
    if Term.compilable? p.equation then some p.pairing.isNone else none

variable {r : Record} {p : Payload}

theorem carriesEquality_of_conforms (h : r.Conforms) (hp : r.structured? = some p) :
    r.carriesEquality = Validation.lacksPairing p := by
  have hkind := h p hp
  rw [carriesEquality, compiled?, hp, Option.bind_some, Validation.lacksPairing]
  cases hc : p.compiled? with
  | none =>
    rw [hc] at hkind
    split at hkind
    · cases hkind
    · next hnot =>
      rw [Bool.not_eq_true] at hnot
      rw [hnot]
      rfl
  | some c =>
    rw [hc] at hkind
    split at hkind
    · next hcompilable =>
      rw [hcompilable]
      exact Option.some.inj hkind
    · cases hkind

theorem isPaired_of_carriesComplementarity (h : r.Conforms)
    (hcarries : r.carriesComplementarity = true) : r.isPaired = true := by
  obtain ⟨c, hcompiled, hc⟩ := (Option.any_eq_true _ _).mp hcarries
  obtain ⟨p, hp, hpc⟩ := Option.bind_eq_some_iff.mp hcompiled
  have hkind := h p hp
  rw [hpc] at hkind
  split at hkind
  · have hpairing : c.shape.isEquality = p.pairing.isNone := Option.some.inj hkind
    rw [hpairing, Option.not_isNone] at hc
    exact (Option.any_eq_true _ _).mpr ⟨p, hp, hc⟩
  · cases hkind

end Record

/-! ### The pass -/

namespace EquationSystem

variable {s t : EquationSystem} {params : Source} {position : Nat} {m m' : Model}
  {known objective : Option ObjectiveSpec} {r r' : Record} {records done : List Record}

/-- A record without a constraint conforms after an update, whether it was compiled or not. -/
theorem conforms_of_update (hr : r.IsUncompiled)
    (h : s.update params position m r = .ok (r', m')) : r'.Conforms := by
  intro p' hp'
  rcases update_cases h with
    ⟨hpending, rfl, -⟩ | ⟨p, equation, c, hpending, hcontent, hparts, -, rfl, -⟩
  · have hnone : p'.constraint = none := by
      rw [Record.IsUncompiled, hp', Option.bind_some] at hr
      exact hr
    -- it was left alone without a constraint, so there is nothing to compile
    have hnot : ¬ Term.compilable? p'.equation = true := by
      intro hcompilable
      cases hequation : p'.equation with
      | none =>
        rw [hequation] at hcompilable
        cases hcompilable
      | some equation =>
        rw [hequation] at hcompilable
        have hsome := Record.pending?_eq_some.mpr
          ⟨Record.structured?_eq_some.mp hp', hnone, hequation, hcompilable⟩
        rw [hpending] at hsome
        cases hsome
    rw [if_neg hnot, Payload.compiled?, hnone]
    rfl
  · obtain ⟨-, -, hequation, hcompilable⟩ := Record.pending?_eq_some.mp hpending
    rw [Record.attach, hcontent] at hp'
    cases hp'
    have hkind : c.shape.isEquality = p.pairing.isNone := Equation.isEquality_of_parts hparts
    have hasked : Term.compilable? p.equation = true := by
      rw [hequation]
      exact hcompilable
    exact (congrArg some hkind).trans (if_pos hasked).symm

/-- A pass over records without constraints leaves records that conform. -/
theorem conforms_of_pass (hrecords : ∀ r ∈ records, r.IsUncompiled)
    (h : s.pass params position m known records = ⟨done, m', .ok objective⟩) :
    ∀ r ∈ done, r.Conforms := by
  induction records generalizing position m known done with
  | nil =>
    cases h
    exact fun r hr => absurd hr List.not_mem_nil
  | cons r rest ih =>
    obtain ⟨hr, hrest⟩ := List.forall_mem_cons.mp hrecords
    obtain ⟨r', m₁, known₁, done', hvisit, hpass, rfl⟩ := pass_cons_eq_ok h
    exact List.forall_mem_cons.mpr
      ⟨conforms_of_update hr (visit_eq_ok.mp hvisit).2, ih hrest hpass⟩

/-- Compiling the equations leaves the records of a pass that succeeds. -/
theorem exists_pass_of_compileEquations {withObjective : Bool}
    (h : (compileEquations params withObjective).effect s = (t, .ok ())) :
    ∃ m m' objective, s.model = some m ∧
      s.pass params 0 m none s.equations = ⟨t.equations, m', .ok objective⟩ := by
  obtain ⟨m, objective, hm, hobjective, hfinish⟩ := finish_of_compileEquations h
  obtain ⟨m', hsystem, -⟩ :=
    s.system_of_finish params withObjective (s.pass params 0 m none s.equations)
  rw [hfinish] at hsystem
  have hrecords : t.equations = (s.pass params 0 m none s.equations).records :=
    congrArg EquationSystem.equations hsystem
  exact ⟨m, _, objective, hm, Pass.ext hrecords.symm rfl hobjective⟩

end EquationSystem

/-! ### The validation -/

namespace Validation

variable {s : EquationSystem}

/-- A record that may need a complementary variable, with its payload. -/
def candidate? (r : Record) : Option (Record × Payload) :=
  if r.isExempt then none else r.structured?.map fun p => (r, p)

theorem candidates_eq (s : EquationSystem) : candidates s = s.equations.filterMap candidate? := rfl

theorem any_candidates (s : EquationSystem) :
    (candidates s).any (fun c => c.2.pairing.isSome) =
      s.equations.any fun r => !r.isExempt && r.isPaired := by
  rw [candidates_eq, List.any_filterMap]
  refine congrArg s.equations.any (funext fun r => ?_)
  rw [candidate?, Record.isPaired]
  cases r.isExempt with
  | true => rfl
  | false => cases r.structured? <;> rfl

/-- Among records that conform, the equations that lack a complementary variable are the equalities.
-/
theorem filter_candidates (h : ∀ r ∈ s.equations, r.Conforms) :
    ((candidates s).filter fun c => lacksPairing c.2).map Prod.fst =
      s.equations.filter fun r => !r.isExempt && r.carriesEquality := by
  rw [candidates_eq, List.filter_filterMap, List.map_filterMap, ← List.filterMap_eq_filter]
  refine List.filterMap_congr fun r hr => ?_
  rw [candidate?, Option.guard]
  cases r.isExempt with
  | true => rfl
  | false =>
    cases hp : r.structured? with
    | none =>
      have hnone : r.carriesEquality = false := by
        rw [Record.carriesEquality, Record.compiled?, hp]
        rfl
      rw [hnone]
      rfl
    | some p =>
      rw [Record.carriesEquality_of_conforms (h r hr) hp]
      cases hlacks : lacksPairing p <;> simp [hlacks]

variable {data level : Value} {tol : Float} {settings : Settings} {report : Report}

theorem mcp_of_validate (h : validate s data level tol settings = .ok report) :
    report.findings .mcp = pairingFindings s := by
  obtain ⟨l, scaling, -, -, rfl⟩ := validate_eq_ok.mp h
  exact (findings_report _ _ _ _).2.2.1

theorem pairingFindings_of_paired (hrecords : ∀ r ∈ s.equations, r.Conforms)
    (h : ∃ r ∈ s.equations, r.isExempt = false ∧ r.isPaired = true) :
    pairingFindings s = { warnings :=
      (s.equations.filter fun r => !r.isExempt && r.carriesEquality).map fun r =>
        "Missing mcp_var for " ++ r.label } := by
  have hany : (candidates s).any (fun c => c.2.pairing.isSome) = true := by
    rw [any_candidates, List.any_eq_true]
    simpa using h
  rw [pairingFindings, if_pos hany, ← filter_candidates hrecords, List.map_map]
  rfl

theorem pairingFindings_of_not_paired
    (h : ¬ ∃ r ∈ s.equations, r.isExempt = false ∧ r.isPaired = true) :
    pairingFindings s = { notes := ["No MCP equations detected"] } := by
  have hany : ¬ (candidates s).any (fun c => c.2.pairing.isSome) = true := by
    rw [any_candidates, List.any_eq_true]
    simpa using h
  rw [pairingFindings, if_neg hany]

end Validation

open Validation

/-- **A validation warns of the equalities among equations that may be paired.** Take records
without constraints whose equations compile. If one of those with a tag that is not exempt names a
complementary variable, every later report on complementary variables has no note, and one warning
for each record with such a tag whose constraint is an equality, in their order. Otherwise it has
one note and no warning, and no record with such a tag carries a complementarity. A basic validation
always gives a report. -/
theorem EquationSystem.pairing_findings_match_constraints (s t : EquationSystem) (params : Source)
    (withObjective : Bool) (hrecords : ∀ r ∈ s.equations, r.IsUncompiled)
    (hcompile : (compileEquations params withObjective).effect s = (t, .ok ())) :
    (∀ data tol settings, ∃ report, validate t data (.text "basic") tol settings = .ok report) ∧
    ∀ data level tol settings report, validate t data level tol settings = .ok report →
      let found := report.findings .mcp
      ((∃ r ∈ t.equations, r.isExempt = false ∧ r.isPaired = true) →
        found.notes = [] ∧ found.warnings =
          (t.equations.filter fun r => !r.isExempt && r.carriesEquality).map fun r =>
            "Missing mcp_var for " ++ r.label) ∧
      ((¬ ∃ r ∈ t.equations, r.isExempt = false ∧ r.isPaired = true) →
        found.notes = ["No MCP equations detected"] ∧ found.warnings = [] ∧
        ∀ r ∈ t.equations, r.isExempt = false → r.carriesComplementarity = false) := by
  obtain ⟨m, m', objective, -, hpass⟩ := exists_pass_of_compileEquations hcompile
  have hconforms := conforms_of_pass hrecords hpass
  refine ⟨fun _ _ _ => ⟨_, rfl⟩, ?_⟩
  intro data level tol settings report hreport found
  have hfound : found = pairingFindings t := mcp_of_validate hreport
  constructor
  · intro hpaired
    rw [hfound, pairingFindings_of_paired hconforms hpaired]
    exact ⟨rfl, rfl⟩
  · intro hnone
    rw [hfound, pairingFindings_of_not_paired hnone]
    refine ⟨rfl, rfl, fun r hr hexempt => Bool.eq_false_iff.mpr fun hcarries => ?_⟩
    exact hnone ⟨r, hr, hexempt,
      Record.isPaired_of_carriesComplementarity (hconforms r hr) hcarries⟩

/-- A record with an equation and perhaps a complementary variable. -/
def Record.paired (tag : String) (equation : Term) (pairing : Option Term) : Record :=
  ⟨tag, "goods", .structured
    ⟨some equation, none, .none, none, [], .absent, pairing, none, none, .empty⟩⟩

/-- Four equations and a note, where the price `p` is paired with the first equation only. The third
one has an exempt tag, and the fourth one is documentation. -/
theorem EquationSystem.pairing_findings_match_one_pair :
    let equation : Term := .eq (.var "p" none) (.const (.number (.int 1)))
    let s : EquationSystem := { new (some (.empty "model")) with
      vars := [⟨"p", some (.int 1), false, some (.int 0), none⟩]
      registry := ⟨[("p", .ofVar 0)]⟩
      equations := [.paired "clearing" equation (some (.plain (.text "p"))),
        .paired "income" equation none, .paired "numeraire" equation none,
        .paired "closure" (.raw "p =e= 1") none, ⟨"memo", "goods", .foreign (.text "p")⟩] }
    let t := ((compileEquations .absent true).effect s).1
    (∀ r ∈ s.equations, r.IsUncompiled) ∧
      (compileEquations .absent true).effect s = (t, .ok ()) ∧
      ∃ report, validate t .none (.text "basic") 1e-6 {} = .ok report ∧
        (report.findings .mcp).warnings = ["Missing mcp_var for goods.income ()"] := by
  intro equation s t
  have hrecords : ∀ r ∈ s.equations, r.IsUncompiled := by
    simp [s, Record.paired, Record.IsUncompiled, Record.structured?]
  have hresult : ((compileEquations .absent true).effect s).2 = .ok () := by decide +kernel
  have hcompile : (compileEquations .absent true).effect s = (t, .ok ()) :=
    Prod.snd_eq_iff.mp hresult
  have hany : t.equations.any (fun r => !r.isExempt && r.isPaired) = true := by decide +kernel
  have hpaired : ∃ r ∈ t.equations, r.isExempt = false ∧ r.isPaired = true := by
    simpa using List.any_eq_true.mp hany
  have hequalities : (t.equations.filter fun r => !r.isExempt && r.carriesEquality).map
      (fun r => "Missing mcp_var for " ++ r.label) = ["Missing mcp_var for goods.income ()"] := by
    decide +kernel
  obtain ⟨hreport, hfound⟩ :=
    pairing_findings_match_constraints s t .absent true hrecords hcompile
  obtain ⟨report, hvalidate⟩ := hreport .none 1e-6 {}
  obtain ⟨-, hwarnings⟩ := (hfound _ _ _ _ report hvalidate).1 hpaired
  exact ⟨hrecords, hcompile, report, hvalidate, hwarnings.trans hequalities⟩

end Equilibrium

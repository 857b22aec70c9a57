/-
Texts where index tuples are expected.

Indices and index names may be given as any value that has parts. A text has parts too, its
characters, so a reader that takes the parts of whatever it is given reads a text as one element for
each character. Indices are read by a reader that stops at a text; the names of indices and the
instances of a specification are not:

* `Form.letters_eq_singleton_iff` - the characters are the text itself exactly if there is one;
* `Payload.ofForm_indices`, `Payload.ofForm_indexNames` - what these entries of a payload decide;
* `VariableSpec.ofForm_instances`, `EquationSpec.ofForm_instances` - what instances decide;
* `bare_text_is_one_index` - where a text is one index, and for which texts.
-/
import Equilibrium.Block
import Equilibrium.Proofs.Compiled

namespace Equilibrium

/-! ### Elements -/

namespace Form

/-- The characters of a text, each as a text. -/
def letters (s : String) : List String := s.toList.map String.singleton

theorem length_letters (s : String) : (letters s).length = s.length := by
  rw [letters, List.length_map, String.length_toList]

theorem letters_eq_singleton_iff {s : String} : letters s = [s] ↔ s.length = 1 := by
  constructor
  · intro h
    rw [← length_letters, h]
    rfl
  · intro h
    rw [← String.length_toList] at h
    obtain ⟨c, hc⟩ := List.length_eq_one_iff.mp h
    have hs : String.singleton c = s := by
      refine String.toList_injective ?_
      rw [String.toList_singleton, hc]
    rw [letters, hc, List.map_singleton, hs]

theorem names_text (s : String) : names (.text s) = .ok (letters s) := by
  show Except.ok ((s.toList.map fun c => Value.text (String.singleton c)).map Value.display) = _
  rw [List.map_map]
  rfl

theorem names_texts (s : String) : names (.list [.text s]) = .ok [s] := rfl

/-- A field is read from the entry under its own name. -/
theorem field_insert_of_ne {α : Type} (form : Form) {name other : String} (v : Value)
    (item : Value → Checked α) (default : α) (h : other ≠ name) :
    field (form.insert name v) other item default = field form other item default := by
  rw [field, Table.get?_insert_of_ne _ _ h, field]

theorem required_insert_of_ne {α : Type} (form : Form) {name other : String} (v : Value)
    (item : Value → Checked α) (h : other ≠ name) :
    required (form.insert name v) other item = required form other item := by
  rw [required, Table.get?_insert_of_ne _ _ h, required]

end Form

/-- A reading that puts the elements of one item into what the rest of its input gives reads a text
like the list of this text exactly if the text has one character, or if the rest is refused. -/
theorem reads_alike_iff {α β : Type} (read : Value → Except Fault β) (rest : Except Fault α)
    (put : List String → α → β) (hput : ∀ a, Function.Injective fun elements => put elements a)
    (hread : ∀ v elements, Form.names v = .ok elements → read v = rest.map (put elements))
    (s : String) :
    read (.text s) = read (.list [.text s]) ↔
      s.length = 1 ∨ ∃ e, read (.list [.text s]) = .error e := by
  rw [hread _ _ (Form.names_text s), hread _ _ (Form.names_texts s),
    ← Form.letters_eq_singleton_iff]
  cases rest with
  | error e => exact ⟨fun _ => .inr ⟨e, rfl⟩, fun _ => rfl⟩
  | ok a =>
    constructor
    · intro h
      exact .inl (hput a (Except.ok.inj h))
    · rintro (h | ⟨e, h⟩)
      · rw [h]
      · cases h

/-! ### Payloads -/

namespace Table

variable {α : Type}

/-- An entry under a name that is left out does not matter. -/
theorem filter_place (keep : String → Bool) {name : String} (h : keep name = false) (a : α)
    (l : List (String × α)) :
    ((place name a l).filter fun e => keep e.1) = l.filter fun e => keep e.1 := by
  induction l with
  | nil => simp [place, h]
  | cons entry rest ih =>
    obtain ⟨n, b⟩ := entry
    rw [place]
    split
    · next heq => simp [← heq, h]
    · rw [List.filter_cons, List.filter_cons, ih]

end Table

/-- The form of a payload with another entry. -/
def PayloadForm.insert (form : PayloadForm) (name : String) (v : Value) : PayloadForm :=
  { form with rest := form.rest.insert name v }

namespace Payload

/-- What is kept of a form beside the entries with a meaning does not depend on such an entry. -/
theorem extra_insert (form : Form) {name : String} (v : Value) (h : name ∈ reservedNames) :
    ((form.insert name v).toList.filter fun e => !reservedNames.contains e.1) =
      form.toList.filter fun e => !reservedNames.contains e.1 :=
  Table.filter_place (fun n => !reservedNames.contains n) (by simpa using h) v form.entries

/-- The payload depends on the entry of its indices in its indices only. -/
theorem ofForm_indices (form : PayloadForm) {v : Value} {indices : List String}
    (h : readIndices v = .ok indices) :
    ofForm (form.insert "indices" v) =
      (ofForm (form.insert "indices" .none)).map fun p => { p with indices := indices } := by
  have hnone : readIndices .none = .ok [] := rfl
  have hreserved : "indices" ∈ reservedNames := by decide
  have hother (name : String) (hne : name ≠ "indices") (w : Value) :
      (form.rest.insert "indices" w).get? name = form.rest.get? name :=
    form.rest.get?_insert_of_ne w hne
  rw [ofForm, ofForm, PayloadForm.insert, PayloadForm.insert]
  simp only [Table.get?_insert_self, hother "index_names" (by decide),
    hother "objective_sense" (by decide), hother "constraint" (by decide), Option.getD_some, h,
    hnone, Form.field_insert_of_ne _ _ _ _ (show "residual" ≠ "indices" by decide),
    extra_insert _ _ hreserved]
  cases readNames ((form.rest.get? "index_names").getD .none) with
  | error e => rfl
  | ok names =>
    cases Form.field form.rest "residual" (Form.optional Form.real) none with
    | error e => rfl
    | ok residual => rfl

/-- The payload depends on the entry of its index names in its index names only. -/
theorem ofForm_indexNames (form : PayloadForm) {v : Value} {names : Option (List String)}
    (h : readNames v = .ok names) :
    ofForm (form.insert "index_names" v) =
      (ofForm (form.insert "index_names" .none)).map fun p => { p with indexNames := names } := by
  have hnone : readNames .none = .ok none := rfl
  have hreserved : "index_names" ∈ reservedNames := by decide
  have hother (name : String) (hne : name ≠ "index_names") (w : Value) :
      (form.rest.insert "index_names" w).get? name = form.rest.get? name :=
    form.rest.get?_insert_of_ne w hne
  rw [ofForm, ofForm, PayloadForm.insert, PayloadForm.insert]
  simp only [Table.get?_insert_self, hother "indices" (by decide),
    hother "objective_sense" (by decide), hother "constraint" (by decide), Option.getD_some, h,
    hnone, Form.field_insert_of_ne _ _ _ _ (show "residual" ≠ "index_names" by decide),
    extra_insert _ _ hreserved]
  cases hindices : readIndices ((form.rest.get? "indices").getD .none) with
  | error e => rfl
  | ok indices =>
    cases Form.field form.rest "residual" (Form.optional Form.real) none with
    | error e => rfl
    | ok residual => rfl

theorem readNames_of_names {v : Value} {names : List String} (h : Form.names v = .ok names) :
    readNames v = .ok (some names) := by
  cases v with
  | none => cases h
  | _ =>
    rw [readNames, h]
    · rfl
    · exact nofun

/-- Where a payload is made, its names and its indices are what is read from their entries. -/
theorem reads_of_ofForm {form : PayloadForm} {p : Payload} (h : ofForm form = .ok p) :
    readNames ((form.rest.get? "index_names").getD .none) = .ok p.indexNames ∧
      readIndices ((form.rest.get? "indices").getD .none) = .ok p.indices := by
  obtain ⟨names, hnames, h⟩ := bind_eq_ok.mp h
  obtain ⟨indices, hindices, h⟩ := bind_eq_ok.mp h
  obtain ⟨residual, -, h⟩ := bind_eq_ok.mp h
  cases h
  exact ⟨hnames, hindices⟩

/-- With a text as index names and a text as indices, the names are bound exactly if the first text
has one character, and then this text is bound to the other one. -/
theorem bindings_of_texts {form : PayloadForm} {s t : String} {p : Payload}
    (h : ofForm ((form.insert "index_names" (.text s)).insert "indices" (.text t)) = .ok p) :
    p.bindings.1 = if s.length = 1 then Table.empty.insert s t else Table.empty := by
  obtain ⟨hnames, hindices⟩ := reads_of_ofForm h
  have hnames : p.indexNames = some (Form.letters s) := by
    rw [PayloadForm.insert, PayloadForm.insert, Table.get?_insert_of_ne _ _ (by decide),
      Table.get?_insert_self, Option.getD_some, readNames_of_names (Form.names_text s)] at hnames
    exact (Except.ok.inj hnames).symm
  have hindices : p.indices = [t] := by
    rw [PayloadForm.insert, Table.get?_insert_self, Option.getD_some] at hindices
    exact (Except.ok.inj hindices).symm
  rw [bindings, hnames, hindices]
  by_cases hs : s.length = 1
  · rw [if_pos hs, Form.letters_eq_singleton_iff.mpr hs]
    rfl
  · rw [if_neg hs]
    show (if ((Form.letters s).map Value.text).length = 1 then _ else _ : Bindings × _).1 = _
    rw [List.length_map, Form.length_letters, if_neg hs]

end Payload

/-! ### Specifications -/

/-- Instances with one item between others. -/
theorem readInstances_between (before after : List Value) {item : Value} {elements : List String}
    (h : Form.names item = .ok elements) :
    readInstances (.list (before ++ item :: after)) =
      (do return (← before.mapM Form.names, ← after.mapM Form.names) : Except Fault _).map
        fun around => around.1 ++ elements :: around.2 := by
  show (before ++ item :: after).mapM Form.names = _
  rw [List.mapM_append, List.mapM_cons, h]
  cases before.mapM Form.names with
  | error e => rfl
  | ok xs =>
    cases after.mapM Form.names with
    | error e => rfl
    | ok ys => rfl

/-- A text among the instances of a specification is read like the list of this text exactly if it
has one character, or if the specification is refused anyway. -/
theorem instances_read_alike_iff {α β : Type} (read : Value → Except Fault β)
    {rest : Except Fault α} {put : List (List String) → α → β}
    (hput : ∀ a, Function.Injective fun instances => put instances a)
    (hread : ∀ v, read v = readInstances v >>= fun instances => rest.map (put instances))
    (before after : List Value) (s : String) :
    read (.list (before ++ .text s :: after)) = read (.list (before ++ .list [.text s] :: after)) ↔
      s.length = 1 ∨ ∃ e, read (.list (before ++ .list [.text s] :: after)) = .error e := by
  refine reads_alike_iff (fun item => read (.list (before ++ item :: after)))
    (do return ((← before.mapM Form.names, ← after.mapM Form.names), ← rest))
    (fun elements a => put (a.1.1 ++ elements :: a.1.2) a.2) ?_ ?_ s
  · intro a elements elements' h
    simpa using hput a.2 h
  · intro item elements h
    rw [hread, readInstances_between before after h]
    cases before.mapM Form.names with
    | error e => rfl
    | ok xs =>
      cases after.mapM Form.names with
      | error e => rfl
      | ok ys =>
        cases rest with
        | error e => rfl
        | ok a => rfl

/-- The specification of a variable depends on the entry of its instances in its instances only. -/
theorem VariableSpec.ofForm_instances (form : Form) (v : Value) :
    ofForm (form.insert "instances" v) = readInstances v >>= fun instances =>
      (ofForm (form.insert "instances" (.list []))).map fun spec =>
        { spec with instances := instances } := by
  have hempty : readInstances (.list []) = .ok [] := rfl
  have hfield (name : String) (hne : name ≠ "instances") (w : Value) :
      Form.field (form.insert "instances" w) name (Form.optional Form.real) none =
        Form.field form name (Form.optional Form.real) none :=
    Form.field_insert_of_ne form w _ _ hne
  rw [ofForm, ofForm, check, check, instancesOf, instancesOf, Table.get?_insert_self,
    Table.get?_insert_self]
  simp only [hempty, hfield "lower" (by decide), hfield "upper" (by decide),
    hfield "start" (by decide), hfield "fixed" (by decide),
    Form.required_insert_of_ne _ _ _ (show "name" ≠ "instances" by decide)]
  cases readInstances v with
  | error e => rfl
  | ok instances =>
    generalize Checked.both _ _ = fields
    cases fields with
    | error flaws => rfl
    | ok fields => rfl

/-- The form of an equation with another entry. -/
def EquationForm.insert (form : EquationForm) (name : String) (v : Value) : EquationForm :=
  { form with rest := form.rest.insert name v }

/-- The specification of an equation depends on the entry of its instances in its instances only. -/
theorem EquationSpec.ofForm_instances (form : EquationForm) (v : Value) :
    ofForm (form.insert "instances" v) = readInstances v >>= fun instances =>
      (ofForm (form.insert "instances" (.list []))).map fun spec =>
        { spec with instances := instances } := by
  have hempty : readInstances (.list []) = .ok [] := rfl
  rw [ofForm, ofForm, check, check, EquationForm.insert, EquationForm.insert, instancesOf,
    instancesOf, Table.get?_insert_self, Table.get?_insert_self]
  simp only [hempty, Form.required_insert_of_ne _ _ _ (show "tag" ≠ "instances" by decide),
    Form.field_insert_of_ne _ _ _ _ (show "objective_sense" ≠ "instances" by decide),
    Form.field_insert_of_ne _ _ _ _ (show "index_names" ≠ "instances" by decide)]
  cases readInstances v with
  | error e => rfl
  | ok instances =>
    generalize Checked.both _ _ = fields
    cases fields with
    | error flaws => rfl
    | ok fields => rfl

/-! ### Main theorem -/

/-- **A text is one index if it has one character.** As the indices of a payload a text is read like
the list of this text, whatever it is. As index names, and as one of the instances of a variable or
an equation, it is read like this list exactly if it has one character, or if the reading fails
anyway and for the same reason. So with a text as index names and another one as indices, the first
one stands for the second one exactly if it has one character; otherwise it is not bound at all. -/
theorem bare_text_is_one_index (s : String) :
    (∀ form : PayloadForm, Payload.ofForm (form.insert "indices" (.text s)) =
      Payload.ofForm (form.insert "indices" (.list [.text s]))) ∧
    (∀ form : PayloadForm, Payload.ofForm (form.insert "index_names" (.text s)) =
        Payload.ofForm (form.insert "index_names" (.list [.text s])) ↔
      s.length = 1 ∨ ∃ e, Payload.ofForm (form.insert "index_names" (.list [.text s])) = .error e) ∧
    (∀ (form : Form) (before after : List Value),
      let reading (item : Value) : Except Fault VariableSpec :=
        VariableSpec.ofForm (form.insert "instances" (.list (before ++ item :: after)))
      reading (.text s) = reading (.list [.text s]) ↔
        s.length = 1 ∨ ∃ e, reading (.list [.text s]) = .error e) ∧
    (∀ (form : EquationForm) (before after : List Value),
      let reading (item : Value) : Except Fault EquationSpec :=
        EquationSpec.ofForm (form.insert "instances" (.list (before ++ item :: after)))
      reading (.text s) = reading (.list [.text s]) ↔
        s.length = 1 ∨ ∃ e, reading (.list [.text s]) = .error e) ∧
    ∀ (form : PayloadForm) (t : String) (p : Payload),
      Payload.ofForm ((form.insert "index_names" (.text s)).insert "indices" (.text t)) = .ok p →
      ∀ scope : Scope, Term.compiled scope p.bindings.1 (.index s) =
        if s.length = 1 then .ok (.native (.text t)) else .error (.unboundIndex s) := by
  refine ⟨fun form => ?_, fun form => ?_, fun form before after => ?_, fun form before after => ?_,
    fun form t p h scope => ?_⟩
  · have htext : Payload.readIndices (.text s) = .ok [s] := rfl
    have hlist : Payload.readIndices (.list [.text s]) = .ok [s] := rfl
    rw [Payload.ofForm_indices form htext, Payload.ofForm_indices form hlist]
  · refine reads_alike_iff (fun v => Payload.ofForm (form.insert "index_names" v)) _
      (fun names (p : Payload) => { p with indexNames := some names }) ?_
      (fun v names h => Payload.ofForm_indexNames form (Payload.readNames_of_names h)) s
    exact fun p names names' hsame => Option.some.inj (congrArg Payload.indexNames hsame)
  · refine instances_read_alike_iff
      (fun v => VariableSpec.ofForm (form.insert "instances" v)) ?_
      (VariableSpec.ofForm_instances form) before after s
    exact fun spec instances instances' hsame => congrArg VariableSpec.instances hsame
  · refine instances_read_alike_iff
      (fun v => EquationSpec.ofForm (form.insert "instances" v)) ?_
      (EquationSpec.ofForm_instances form) before after s
    exact fun spec instances instances' hsame => congrArg EquationSpec.instances hsame
  · rw [Term.compiled_index, Payload.bindings_of_texts h]
    by_cases hs : s.length = 1
    · rw [if_pos hs, if_pos hs, Bindings.resolve, Table.get?_insert_self]
      rfl
    · rw [if_neg hs, if_neg hs, Bindings.resolve, Table.get?_empty]
      rfl

/-- The form of an equation without names and indices. -/
def plainForm : PayloadForm := ⟨none, none, none, .absent, Table.empty⟩

/-- A text of one character is one index name, and stands for the one index. -/
theorem bare_text_is_one_index_of_letter :
    Payload.ofForm (plainForm.insert "index_names" (.text "i")) =
      Payload.ofForm (plainForm.insert "index_names" (.list [.text "i"])) ∧
    ∃ p, Payload.ofForm ((plainForm.insert "index_names" (.text "i")).insert "indices"
        (.text "agr")) = .ok p ∧
      ∀ scope : Scope, Term.compiled scope p.bindings.1 (.index "i") =
        .ok (.native (.text "agr")) := by
  obtain ⟨-, hnames, -, -, hbound⟩ := bare_text_is_one_index "i"
  exact ⟨(hnames plainForm).mpr (.inl rfl), _, rfl, hbound plainForm "agr" _ rfl⟩

/-- A text of two characters is two index names, so with one index nothing is bound. A text of three
characters is one instance with three elements. -/
theorem bare_text_is_letters :
    (∃ p q, Payload.ofForm ((plainForm.insert "index_names" (.text "ij")).insert "indices"
        (.text "agr")) = .ok p ∧
      Payload.ofForm ((plainForm.insert "index_names" (.list [.text "ij"])).insert "indices"
        (.text "agr")) = .ok q ∧
      p.indexNames = some ["i", "j"] ∧ q.indexNames = some ["ij"] ∧
      ∀ scope : Scope,
        Term.compiled scope p.bindings.1 (.index "ij") = .error (.unboundIndex "ij") ∧
        Term.compiled scope q.bindings.1 (.index "ij") = .ok (.native (.text "agr"))) ∧
    ∃ v w, VariableSpec.ofForm (Table.ofList [("name", .text "x"),
        ("instances", .list [.text "agr"])]) = .ok v ∧
      VariableSpec.ofForm (Table.ofList [("name", .text "x"),
        ("instances", .list [.list [.text "agr"]])]) = .ok w ∧
      v.names = ["x_a_g_r"] ∧ w.names = ["x_agr"] :=
  ⟨⟨_, _, rfl, rfl, rfl, rfl, fun _ => ⟨rfl, rfl⟩⟩, _, _, rfl, rfl, rfl, rfl⟩

end Equilibrium

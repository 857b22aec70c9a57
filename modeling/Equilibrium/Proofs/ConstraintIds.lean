/-
The ids of constraints in an exported dataset.

An id is joined twice: the elements of an index are joined into one text, and this text is joined to
the block and the tag. Two equation instances that differ may get the same id, since a text may
contain a separator and no index joins to the same text as an empty one. Where that is excluded, ids
are distinct, and then a solution refers to one constraint.

* `Dataset.idOf_eq_iff` - when two entries have the same id;
* `ResidualEntry.Separable` - when this tells that they have the same block, tag and indices;
* `Dataset.nodup_idOf` - so the ids of separable entries are distinct;
* `EquationSystem.solutions_refer_to_one_constraint` - and each solution refers to one constraint;
* `EquationSystem.joined_ids_clash` - three ways in which entries that differ get the same id.
-/
import Equilibrium.Proofs.JoinedTexts
import Equilibrium.Proofs.Exports

namespace Equilibrium

namespace ResidualEntry

/-- What an entry is told from other ones by. -/
def key (e : ResidualEntry) : String × String × List String := (e.block, e.tag, e.indices)

/-- The parts of an id. -/
def idParts (e : ResidualEntry) : List String := [e.block, e.tag, Text.join "," e.indices]

/-- The pieces of an id, which are all that it tells of its parts. -/
def idPieces (e : ResidualEntry) : List (List Char) := e.idParts.flatMap (Text.pieces ':')

/-- The ids of two entries are the same only if they have the same block, tag and indices. -/
def Separable (a b : ResidualEntry) : Prop :=
  Text.Separable ':' a.idParts b.idParts ∧ Text.Separable ',' a.indices b.indices

end ResidualEntry

open ResidualEntry

namespace Dataset

variable {a b : ResidualEntry} {entries : List ResidualEntry}

theorem idOf_eq_join (e : ResidualEntry) : idOf e = Text.join (String.singleton ':') e.idParts := by
  have hcolon : String.singleton ':' = ":" := rfl
  rw [hcolon, Text.join, idParts, String.intercalate_cons_cons, String.intercalate_cons_cons,
    String.intercalate_singleton, idOf, constraintId]
  simp only [String.append_assoc]

/-- Two entries have the same id exactly if the parts of their ids have the same pieces. -/
theorem idOf_eq_iff : idOf a = idOf b ↔ a.idPieces = b.idPieces := by
  rw [idOf_eq_join, idOf_eq_join]
  exact Text.join_eq_join_iff

theorem key_eq_of_idOf_eq (h : Separable a b) (hid : idOf a = idOf b) : a.key = b.key := by
  rw [idOf_eq_join, idOf_eq_join] at hid
  have hparts : a.idParts = b.idParts := Text.join_injective h.1 hid
  obtain ⟨hblock, htag, hindices⟩ : a.block = b.block ∧ a.tag = b.tag ∧
      Text.join "," a.indices = Text.join "," b.indices := by
    simpa [idParts] using hparts
  rw [key, key, hblock, htag, Text.join_injective h.2 hindices]

/-- The ids of entries are distinct exactly if their pieces are. -/
theorem nodup_idOf_iff : (entries.map idOf).Nodup ↔
    entries.Pairwise fun a b => a.idPieces ≠ b.idPieces := by
  rw [List.Nodup, List.pairwise_map]
  exact List.Pairwise.iff fun a b => not_congr idOf_eq_iff

/-- The ids of separable entries are distinct. -/
theorem nodup_idOf (hkeys : (entries.map key).Nodup) (hseparable : entries.Pairwise Separable) :
    (entries.map idOf).Nodup := by
  rw [List.Nodup, List.pairwise_map] at hkeys ⊢
  exact (hkeys.and hseparable).imp fun ⟨hkey, h⟩ hid => hkey (key_eq_of_idOf_eq h hid)

theorem constraints_ids (id : String) (description : Option String) (tol : Float)
    (entries : List ResidualEntry) :
    (ofEntries id description tol entries).constraints.map Constraint.id = entries.map idOf := by
  rw [ofEntries, List.map_map]
  rfl

/-- In a list without duplicates, an element has one position. -/
theorem existsUnique_getElem? {ids : List String} (h : ids.Nodup) {id : String} (hid : id ∈ ids) :
    ∃! k : Nat, ids[k]? = some id := by
  obtain ⟨k, hk⟩ := List.mem_iff_getElem?.mp hid
  refine ⟨k, hk, fun k' hk' => ?_⟩
  obtain ⟨hlt, -⟩ := List.getElem?_eq_some_iff.mp hk'
  exact (List.getElem?_inj hlt h).mp (hk'.trans hk.symm)

end Dataset

namespace EquationSystem

open Dataset

/-- **Separable equations get different ids.** An export always succeeds, and its ids are distinct
exactly if no two entries have the same pieces. That is so if the entries have distinct keys and any
two of them are separable, and then each solution refers to exactly one constraint. -/
theorem solutions_refer_to_one_constraint (s : EquationSystem) (id : String)
    (description : Option String) (tol : Float) :
    ∃ dataset, ofSystem s ⟨.text id, description.elim .none .text⟩ tol = .ok dataset ∧
      ((dataset.constraints.map Constraint.id).Nodup ↔
        s.residuals.Pairwise fun a b => a.idPieces ≠ b.idPieces) ∧
      ((s.residuals.map key).Nodup → s.residuals.Pairwise Separable →
        (dataset.constraints.map Constraint.id).Nodup ∧
          ∀ x ∈ dataset.solutions,
            ∃! k : Nat, (dataset.constraints.map Constraint.id)[k]? = some x.constraint) := by
  have hids := constraints_ids id description tol s.residuals
  refine ⟨_, ofSystem_text s id description tol, ?_, fun hkeys hseparable => ?_⟩
  · rw [hids]
    exact nodup_idOf_iff
  · have hnodup := nodup_idOf hkeys hseparable
    rw [← hids] at hnodup
    refine ⟨hnodup, fun x hx => existsUnique_getElem? hnodup ?_⟩
    -- a solution carries the id of its constraint
    rw [← solutions_ids]
    exact List.mem_map_of_mem hx

/-- A system with a record for each of these entries. -/
def recording (entries : List ResidualEntry) : EquationSystem :=
  { new (some (.empty "model")) with
    equations := entries.map fun e => ⟨e.tag, e.block, .structured
      ⟨none, none, .none, none, e.indices, .absent, none, none, some e.residual, .empty⟩⟩ }

theorem residuals_recording (entries : List ResidualEntry) :
    (recording entries).residuals = entries := by
  rw [residuals, recording, List.filterMap_map]
  exact List.filterMap_some

/-- Colons in the blocks only, and commas in an index of one element: the ids are distinct. -/
theorem solutions_refer_to_one_constraint_of_separable :
    let s := recording [⟨"income", "eu:goods", [], 0.0⟩,
      ⟨"income", "eu:goods", ["May 1, 2020"], 0.5⟩, ⟨"income", "us:goods", ["May"], 0.25⟩]
    (s.residuals.map key).Nodup ∧ s.residuals.Pairwise Separable ∧
      ∃ dataset, ofSystem s {} 1e-6 = .ok dataset ∧
        (dataset.constraints.map Constraint.id).Nodup := by
  intro s
  have hkeys : (s.residuals.map key).Nodup := by decide
  have hseparable : s.residuals.Pairwise Separable := by
    have hcolons : ∀ e ∈ s.residuals,
        (e.idParts.map (Text.occurrences ':')).eraseIdx 0 = [0, 0] := by decide
    have hparts : s.residuals.Pairwise fun a b => Text.Separable ':' a.idParts b.idParts :=
      List.pairwise_of_forall_mem_list fun a ha b hb =>
        .aligned 0 rfl ((hcolons a ha).trans (hcolons b hb).symm)
    have hindices : s.residuals.Pairwise fun a b => Text.Separable ',' a.indices b.indices := by
      rw [residuals_recording]
      simp only [List.pairwise_cons, List.forall_mem_cons]
      exact ⟨⟨.symm (.blank (by decide)), .symm (.blank (by decide)), by simp⟩,
        ⟨.aligned 0 rfl rfl, by simp⟩, by simp⟩
    exact hparts.and hindices
  obtain ⟨dataset, hdataset, -, hdistinct⟩ :=
    solutions_refer_to_one_constraint s "cgeruntime" none 1e-6
  exact ⟨hkeys, hseparable, dataset, hdataset, (hdistinct hkeys hseparable).1⟩

/-- Six entries with three ids. A colon may stand in a block or in a tag, a comma may be one of an
element, and an index without elements looks like one with an empty element. -/
theorem joined_ids_clash :
    let s := recording [⟨"c", "a:b", [], 0.0⟩, ⟨"b:c", "a", [], 1.0⟩, ⟨"d", "a", ["x,y"], 0.0⟩,
      ⟨"d", "a", ["x", "y"], 1.0⟩, ⟨"e", "a", [], 0.0⟩, ⟨"e", "a", [""], 1.0⟩]
    (s.residuals.map key).Nodup ∧
      ∃ dataset, ofSystem s {} 1e-6 = .ok dataset ∧
        dataset.constraints.map Constraint.id =
          ["a:b:c:", "a:b:c:", "a:d:x,y", "a:d:x,y", "a:e:", "a:e:"] ∧
        ¬ (dataset.constraints.map Constraint.id).Nodup ∧
        ∃ x ∈ dataset.solutions,
          ¬ ∃! k : Nat, (dataset.constraints.map Constraint.id)[k]? = some x.constraint := by
  intro s
  have hids : (ofEntries "cgeruntime" none 1e-6 s.residuals).constraints.map Constraint.id =
      ["a:b:c:", "a:b:c:", "a:d:x,y", "a:d:x,y", "a:e:", "a:e:"] := by
    rw [constraints_ids]
    decide +kernel
  refine ⟨by decide, _, rfl, hids, ?_, ?_⟩
  · rw [hids]
    decide
  · refine ⟨solutionOf 1e-6 ⟨"c", "a:b", [], 0.0⟩, List.mem_cons_self, ?_⟩
    rw [hids]
    rintro ⟨k, -, hunique⟩
    have hfirst : 0 = k := hunique 0 rfl
    have hsecond : 1 = k := hunique 1 rfl
    omega

end EquationSystem

end Equilibrium

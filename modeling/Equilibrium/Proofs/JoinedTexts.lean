/-
What a joined text tells of its parts.

Nothing marks the separators between joined parts, and a part may contain the separator itself. So a
joined text tells the pieces of its parts, one after the other, and no more: not where a part ends.
Lists that join to the same text are the same list only if something else tells where the parts end.

* `Text.join_eq_join_iff` - lists join to the same text exactly if their parts have the same pieces;
* `Text.eq_of_flatMap_pieces` - equally many pieces in each part but one tell where the parts end;
* `Text.Separable` - when two lists cannot join to the same text;
* `Text.join_injective` - unless they are the same list.
-/
import Equilibrium.Text.Quoted
import Mathlib.Data.List.Basic

namespace Equilibrium.Text

variable {c : Char} {s t : String} {l l' rest rest' : List String}

/-! ### Pieces -/

/-- The pieces of a text, cut at every place of a character. -/
def pieces (c : Char) (s : String) : List (List Char) := s.toList.splitOn c

/-- How often a character occurs in a text. -/
def occurrences (c : Char) (s : String) : Nat := s.toList.count c

theorem pieces_injective (c : Char) : Function.Injective (pieces c) := by
  intro s t h
  have hjoined : [c].intercalate (pieces c s) = [c].intercalate (pieces c t) :=
    congrArg [c].intercalate h
  rw [pieces, pieces, List.intercalate_splitOn, List.intercalate_splitOn] at hjoined
  exact String.toList_injective hjoined

theorem pieces_of_not_mem (h : c ∉ s.toList) : pieces c s = [s.toList] :=
  List.splitOn_eq_singleton h

theorem map_occurrences_of_not_mem (h : ∀ s ∈ l, c ∉ s.toList) :
    l.map (occurrences c) = List.replicate l.length 0 :=
  List.map_eq_replicate_iff.mpr fun s hs => List.count_eq_zero.mpr (h s hs)

theorem length_pieces (c : Char) (s : String) : (pieces c s).length = occurrences c s + 1 := by
  rw [pieces, occurrences]
  induction s.toList with
  | nil => rfl
  | cons d cs ih =>
    rw [List.splitOn_cons_eq_if_modifyHead, List.count_cons]
    split
    · rw [List.length_cons, ih]
    · rw [List.length_modifyHead, ih, Nat.add_zero]

/-! ### Joining -/

theorem join_nil (sep : String) : join sep [] = join sep [""] := by
  rw [join, join, String.intercalate_nil, String.intercalate_singleton]

/-- The pieces of a joined text are those of its parts. -/
theorem pieces_join (c : Char) (s : String) (rest : List String) :
    pieces c (join (String.singleton c) (s :: rest)) = (s :: rest).flatMap (pieces c) := by
  induction rest generalizing s with
  | nil => rw [join, String.intercalate_singleton, List.flatMap_singleton]
  | cons t rest ih =>
    have hjoined : (join (String.singleton c) (s :: t :: rest)).toList =
        s.toList ++ c :: (join (String.singleton c) (t :: rest)).toList := by
      rw [join, String.intercalate_cons_cons, String.toList_append, String.toList_append,
        List.append_assoc, String.toList_singleton]
      rfl
    rw [pieces, hjoined, List.splitOn_append_cons_self, List.flatMap_cons, ← ih t]
    rfl

/-- Lists join to the same text exactly if their parts have the same pieces. -/
theorem join_eq_join_iff :
    join (String.singleton c) (s :: rest) = join (String.singleton c) (t :: rest') ↔
      (s :: rest).flatMap (pieces c) = (t :: rest').flatMap (pieces c) := by
  rw [← (pieces_injective c).eq_iff, pieces_join, pieces_join]

theorem flatMap_pieces_of_not_mem (h : ∀ s ∈ l, c ∉ s.toList) :
    l.flatMap (pieces c) = l.map String.toList := by
  rw [List.map_eq_flatMap]
  exact List.flatMap_congr fun s hs => pieces_of_not_mem (h s hs)

/-! ### Telling the parts -/

/-- Parts that contain the separator equally often, one by one, have equally many pieces. -/
theorem length_flatMap_pieces (h : l.map (occurrences c) = l'.map (occurrences c)) :
    (l.flatMap (pieces c)).length = (l'.flatMap (pieces c)).length := by
  have hlengths (l : List String) : (l.map fun s => (pieces c s).length) =
      (l.map (occurrences c)).map (· + 1) := by
    rw [List.map_map]
    exact List.map_congr_left fun s _ => length_pieces c s
  rw [List.length_flatMap, List.length_flatMap, hlengths, hlengths, h]

/-- Where all parts but one have equally many pieces, the parts are the same if the pieces are. -/
theorem eq_of_flatMap_pieces {k : Nat} (hlength : l.length = l'.length)
    (hcounts : (l.map (occurrences c)).eraseIdx k = (l'.map (occurrences c)).eraseIdx k)
    (h : l.flatMap (pieces c) = l'.flatMap (pieces c)) : l = l' := by
  induction l generalizing l' k with
  | nil => exact (List.length_eq_zero_iff.mp hlength.symm).symm
  | cons s rest ih =>
    obtain ⟨t, rest', rfl⟩ := List.exists_cons_of_length_eq_add_one hlength.symm
    rw [List.length_cons, List.length_cons, Nat.add_right_cancel_iff] at hlength
    rw [List.flatMap_cons, List.flatMap_cons] at h
    cases k with
    | zero =>
      -- the first part may differ, so the pieces are counted from the end
      have hrest : rest.map (occurrences c) = rest'.map (occurrences c) := hcounts
      obtain ⟨hhead, htail⟩ := List.append_inj' h (length_flatMap_pieces hrest)
      rw [pieces_injective c hhead, ih (k := 0) hlength (congrArg (List.eraseIdx · 0) hrest) htail]
    | succ k =>
      -- the first parts have equally many pieces, which are counted from the front
      obtain ⟨hcount, hcounts⟩ := List.cons.inj hcounts
      have hpieces : (pieces c s).length = (pieces c t).length := by
        rw [length_pieces, length_pieces, hcount]
      obtain ⟨hhead, htail⟩ := List.append_inj h hpieces
      rw [pieces_injective c hhead, ih hlength hcounts htail]

/-- When two lists are the same list if they join to the same text. -/
inductive Separable (c : Char) : List String → List String → Prop
  /-- Place by place their parts contain the separator equally often, or at all places but one. -/
  | aligned {l l' : List String} (k : Nat) (hlength : l.length = l'.length)
      (hcounts : (l.map (occurrences c)).eraseIdx k = (l'.map (occurrences c)).eraseIdx k) :
      Separable c l l'
  /-- No part contains the separator, and both lists have parts. -/
  | free {s t : String} {rest rest' : List String} (h : ∀ p ∈ s :: rest, c ∉ p.toList)
      (h' : ∀ p ∈ t :: rest', c ∉ p.toList) : Separable c (s :: rest) (t :: rest')
  /-- One list has no parts, and the other one is not an empty text only. -/
  | blank {l : List String} (h : l ≠ [""]) : Separable c l []
  | symm {l l' : List String} (h : Separable c l l') : Separable c l' l

/-- Only a list without parts and one with an empty text as its only part join to the empty text. -/
theorem eq_nil_of_join_eq (h : join (String.singleton c) l = join (String.singleton c) [])
    (hne : l ≠ [""]) : l = [] := by
  cases l with
  | nil => rfl
  | cons s rest =>
    rw [join_nil, join_eq_join_iff, List.flatMap_cons, List.flatMap_singleton] at h
    cases rest with
    | nil =>
      rw [List.flatMap_nil, List.append_nil] at h
      exact absurd (congrArg (· :: []) (pieces_injective c h)) hne
    | cons t rest =>
      -- each of the two parts has a piece, and the empty text has one
      have hempty : occurrences c "" = 0 := rfl
      have hlength := congrArg List.length h
      rw [List.flatMap_cons, List.length_append, List.length_append, length_pieces, length_pieces,
        length_pieces] at hlength
      omega

/-- **Separable lists that differ join to different texts.** -/
theorem join_injective (h : Separable c l l')
    (hjoin : join (String.singleton c) l = join (String.singleton c) l') : l = l' := by
  induction h with
  | @aligned l l' k hlength hcounts =>
    cases l with
    | nil => exact (List.length_eq_zero_iff.mp hlength.symm).symm
    | cons s rest =>
      obtain ⟨t, rest', rfl⟩ := List.exists_cons_of_length_eq_add_one hlength.symm
      exact eq_of_flatMap_pieces hlength hcounts (join_eq_join_iff.mp hjoin)
  | free h h' =>
    have hpieces := join_eq_join_iff.mp hjoin
    rw [flatMap_pieces_of_not_mem h, flatMap_pieces_of_not_mem h'] at hpieces
    exact List.map_injective_iff.mpr (fun _ _ => String.toList_injective) hpieces
  | blank hne => exact eq_nil_of_join_eq hjoin hne
  | symm _ ih => exact (ih hjoin.symm).symm

end Equilibrium.Text

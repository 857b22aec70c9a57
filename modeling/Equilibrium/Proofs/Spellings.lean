/-
Names in other spellings.

Senses, levels, categories and the members of vocabularies are looked up by name, and blanks around
a name and the case of its letters do not matter. This holds of each reader of names and of every
text, the one exception being the empty text where a level is read: it stands for the basic level,
although blanks alone do not:

* `Text.Respells` - a text is another one with its letters in another case and blanks around it;
* `Text.normalize_of_respells`, `Text.respells_iff` - other spellings have the same normalized form,
  and the texts with a name as their normalized form are the other spellings of this name;
* `Vocabulary.find_eq_some_iff` - so a text is found exactly if it is a spelling of a name;
* `NameReader.read_eq` - the readers look texts up like this, apart from the empty one;
* `NameReader.spellings_read_alike` - what a reader accepts, how it refuses the rest, and which
  spellings it reads alike;
* `NameReader.blank_level_is_unknown` - the exception.
-/
import Equilibrium.Vocabulary
import Equilibrium.Proofs.Assembly
import Mathlib.Data.List.TakeWhile

namespace Equilibrium

namespace Text

variable {s t name : String}

/-! ### Blanks and letters -/

theorem toNat_of_isLower {c : Char} (h : c.isLower = true) : 97 ≤ c.toNat ∧ c.toNat ≤ 122 := by
  change (decide (c.val ≥ 97) && decide (c.val ≤ 122)) = true at h
  simpa [UInt32.le_iff_toNat_le] using h

theorem isUpper_iff {c : Char} : c.isUpper = true ↔ 65 ≤ c.toNat ∧ c.toNat ≤ 90 := by
  show decide (c.val ≥ 65 ∧ c.val ≤ 90) = true ↔ _
  simp [UInt32.le_iff_toNat_le]

/-- Characters other than capitals are their own small letters. -/
theorem toLower_of_not_isUpper {c : Char} (h : c.isUpper = false) : c.toLower = c :=
  dif_neg fun hc => Bool.false_ne_true (h.symm.trans (isUpper_iff.mpr hc))

theorem isLower_toLower {c : Char} (h : c.isUpper = true) : c.toLower.isLower = true := by
  obtain ⟨hlow, hhigh⟩ := isUpper_iff.mp h
  have hcapitals : ∀ n < 26, (Char.ofNat (65 + n)).toLower.isLower = true := by decide
  have hc := hcapitals (c.toNat - 65) (by omega)
  rwa [Nat.add_sub_cancel' hlow, Char.ofNat_toNat] at hc

theorem isBlank_of_visible {c : Char} (hlow : 0x21 ≤ c.toNat) (hhigh : c.toNat ≤ 0x7E) :
    isBlank c = false := by
  simp only [isBlank, Bool.or_eq_false_iff, Bool.and_eq_false_iff, decide_eq_false_iff_not,
    beq_eq_false_iff_ne]
  omega

theorem foldCase_of_isLower {c : Char} (h : c.isLower = true) : foldCase c = c := by
  obtain ⟨hlow, hhigh⟩ := toNat_of_isLower h
  have hkelvin : ¬ (c.toNat == 0x212A) = true := by
    simp only [beq_iff_eq]
    omega
  have hsmall : c.isUpper = false := Bool.eq_false_iff.mpr fun hupper => by
    have := isUpper_iff.mp hupper
    omega
  rw [foldCase, if_neg hkelvin, toLower_of_not_isUpper hsmall]

/-- Folding leaves a character alone or turns one that is no blank into a small letter. -/
theorem foldCase_cases (c : Char) :
    foldCase c = c ∨ isBlank c = false ∧ (foldCase c).isLower = true := by
  by_cases hkelvin : c.toNat = 0x212A
  · have hfold : foldCase c = 'k' := by simp [foldCase, hkelvin]
    refine .inr ⟨by simp [isBlank, hkelvin], ?_⟩
    rw [hfold]
    rfl
  · have hfold : foldCase c = c.toLower := by simp [foldCase, hkelvin]
    rw [hfold]
    cases hupper : c.isUpper with
    | true =>
      obtain ⟨hlow, hhigh⟩ := isUpper_iff.mp hupper
      exact .inr ⟨isBlank_of_visible (by omega) (by omega), isLower_toLower hupper⟩
    | false => exact .inl (toLower_of_not_isUpper hupper)

theorem isBlank_foldCase (c : Char) : isBlank (foldCase c) = isBlank c := by
  rcases foldCase_cases c with hsame | ⟨hvisible, hlower⟩
  · rw [hsame]
  · obtain ⟨hlow, hhigh⟩ := toNat_of_isLower hlower
    rw [hvisible, isBlank_of_visible (by omega) (by omega)]

theorem foldCase_foldCase (c : Char) : foldCase (foldCase c) = foldCase c := by
  rcases foldCase_cases c with hsame | ⟨-, hlower⟩
  · rw [hsame, hsame]
  · exact foldCase_of_isLower hlower

/-! ### Trimming -/

theorem trimList_map {f : Char → Char} (hf : ∀ c, isBlank (f c) = isBlank c) (cs : List Char) :
    trimList (cs.map f) = (trimList cs).map f := by
  have hcomp : isBlank ∘ f = isBlank := funext hf
  simp only [trimList, List.dropWhile_map, hcomp, ← List.map_reverse]

theorem trimList_between {before after : List Char} (hbefore : ∀ c ∈ before, isBlank c = true)
    (hafter : ∀ c ∈ after, isBlank c = true) (middle : List Char) :
    trimList (before ++ middle ++ after) = trimList middle := by
  have hreverse : ∀ c ∈ after.reverse, isBlank c = true :=
    fun c hc => hafter c (List.mem_reverse.mp hc)
  rw [trimList, trimList, List.append_assoc, List.dropWhile_append_of_pos hbefore,
    List.dropWhile_append]
  by_cases hblank : (middle.dropWhile isBlank).isEmpty = true
  · have hnothing : after.dropWhile isBlank = [] := List.dropWhile_eq_nil_iff.mpr hafter
    rw [if_pos hblank, hnothing, List.isEmpty_iff.mp hblank]
  · rw [if_neg hblank, List.reverse_append, List.dropWhile_append_of_pos hreverse]

/-- What trimming drops are blanks. -/
theorem exists_trimList (cs : List Char) :
    ∃ before after, cs = before ++ trimList cs ++ after ∧
      (∀ c ∈ before, isBlank c = true) ∧ ∀ c ∈ after, isBlank c = true := by
  refine ⟨cs.takeWhile isBlank, ((cs.dropWhile isBlank).reverse.takeWhile isBlank).reverse, ?_,
    fun c hc => List.mem_takeWhile_imp hc,
    fun c hc => List.mem_takeWhile_imp (List.mem_reverse.mp hc)⟩
  rw [trimList, List.append_assoc, ← List.reverse_append, List.takeWhile_append_dropWhile,
    List.reverse_reverse, List.takeWhile_append_dropWhile]

/-! ### Spellings -/

/-- `t` is `s` with some letters in another case, and with blanks around it. The letters are those
of ASCII, and the Kelvin sign, which is a `K`. -/
def Respells (s t : String) : Prop :=
  ∃ before middle after, t.toList = before ++ middle ++ after ∧
    (∀ c ∈ before, isBlank c = true) ∧ (∀ c ∈ after, isBlank c = true) ∧
    middle.map foldCase = s.toList.map foldCase

theorem Respells.ne_empty (h : Respells s t) (hs : s ≠ "") : t ≠ "" := by
  rintro rfl
  obtain ⟨before, middle, after, htext, -, -, hfold⟩ := h
  have hmiddle : middle = [] := by
    simp at htext
    exact htext.2.1
  rw [hmiddle, List.map_nil] at hfold
  exact hs (by simpa using hfold.symm)

/-- Other spellings have the same normalized form. -/
theorem normalize_of_respells (h : Respells s t) : normalize t = normalize s := by
  obtain ⟨before, middle, after, htext, hbefore, hafter, hfold⟩ := h
  have hletters : (trimList t.toList).map foldCase = (trimList s.toList).map foldCase := by
    rw [htext, trimList_between hbefore hafter, ← trimList_map isBlank_foldCase, hfold,
      trimList_map isBlank_foldCase]
  rw [normalize, normalize, hletters]

/-- The texts whose normalized form is a name are the other spellings of this name. -/
theorem respells_iff (hname : normalize name = name) : Respells name s ↔ normalize s = name := by
  constructor
  · intro h
    rw [normalize_of_respells h, hname]
  · intro h
    obtain ⟨before, after, htext, hbefore, hafter⟩ := exists_trimList s.toList
    refine ⟨before, trimList s.toList, after, htext, hbefore, hafter, ?_⟩
    have hletters : (trimList s.toList).map foldCase = name.toList := by
      rw [← h, normalize, String.toList_ofList]
    rw [← hletters, List.map_map]
    exact List.map_congr_left fun c _ => (foldCase_foldCase c).symm

end Text

/-! ### Looking up -/

/-- A text is found exactly if it is a spelling of a name. -/
theorem Vocabulary.find_eq_some_iff {α : Type} {names : List (String × α)}
    (hdistinct : (names.map Prod.fst).Nodup)
    (hplain : ∀ name ∈ names.map Prod.fst, Text.normalize name = name) {s : String} {a : α} :
    find names s = some a ↔ ∃ name, (name, a) ∈ names ∧ Text.Respells name s := by
  have hseek : find names s = some a ↔ (Text.normalize s, a) ∈ names :=
    Table.get?_eq_some_iff (t := ⟨names⟩) hdistinct
  have hrespells {name : String} (hmem : (name, a) ∈ names) :
      Text.Respells name s ↔ Text.normalize s = name :=
    Text.respells_iff (hplain name (List.mem_map_of_mem hmem))
  rw [hseek]
  constructor
  · intro hmem
    exact ⟨_, hmem, (hrespells hmem).mpr rfl⟩
  · rintro ⟨name, hmem, hspelling⟩
    rw [(hrespells hmem).mp hspelling]
    exact hmem

/-! ### Readers of names -/

/-- The readers of names: of senses, of levels, of categories, and of the members of a vocabulary.
-/
inductive NameReader
  | sense
  | level
  | category
  | member (l : Lexicon)

namespace NameReader

/-- What the names stand for. -/
abbrev Meaning : NameReader → Type
  | sense => Sense
  | level => Level
  | category => Category
  | member _ => String

/-- The documented names, and what they stand for. -/
def names : (r : NameReader) → List (String × r.Meaning)
  | sense => [("max", .maximize), ("maximize", .maximize), ("maximise", .maximize),
      ("min", .minimize), ("minimize", .minimize), ("minimise", .minimize)]
  | level => [("basic", .basic), ("full", .full), ("extended", .full)]
  | category => [("structural", .structural), ("residuals", .residuals), ("mcp", .mcp),
      ("scaling", .scaling)]
  | member .componentType => [("generator", "generator"), ("load", "load"), ("line", "line"),
      ("storage", "storage"), ("market", "market"), ("other", "other")]
  | member .constraintKind => [("balance", "balance"), ("capacity", "capacity"),
      ("limit", "limit"), ("policy", "policy"), ("other", "other")]
  | member .constraintSense => [("eq", "eq"), ("le", "le"), ("ge", "ge")]

/-- Reads a text as a name. -/
def read : (r : NameReader) → String → Except Fault r.Meaning
  | sense, s => Sense.ofValue (.text s)
  | level, s => Level.ofValue (.text s)
  | category, s => Category.ofValue (.text s)
  | member l, s => l.find (.text s)

/-- Why a text is refused. -/
def refusal : NameReader → String → Fault
  | sense => .unknownSense
  | level => .unknownLevel
  | category => .unknownCategory
  | member l => .unknownMember l

/-- What the empty text stands for, though it is no name. -/
def unnamed : (r : NameReader) → Option r.Meaning
  | level => some .basic
  | _ => none

variable (r : NameReader)

theorem distinct_names : (r.names.map Prod.fst).Nodup := by
  rcases r with _ | _ | _ | _ | _ | _ <;> decide

theorem normalize_names : ∀ name ∈ r.names.map Prod.fst, Text.normalize name = name := by
  rcases r with _ | _ | _ | _ | _ | _ <;> decide

theorem find_empty : Vocabulary.find r.names "" = none := by
  rcases r with _ | _ | _ | _ | _ | _ <;> rfl

theorem read_empty {a : r.Meaning} (h : r.unnamed = some a) : r.read "" = .ok a := by
  cases r with
  | level =>
    cases h
    rfl
  | _ => cases h

/-- A text is looked up among the names, unless it is empty and stands for something. -/
theorem read_eq {s : String} (h : s = "" → r.unnamed = none) :
    r.read s = (Vocabulary.find r.names s).elim (.error (r.refusal s)) .ok := by
  cases r with
  | sense =>
    show Sense.ofValue (.text s) = (Vocabulary.find Sense.aliases s).elim _ _
    rw [Sense.ofValue, Value.display_text]
    · cases Vocabulary.find Sense.aliases s <;> rfl
    · exact nofun
  | level =>
    have hs : (Value.text s).holds = true := by
      have hne : s ≠ "" := fun hempty => by cases h hempty
      simpa [Value.holds] using hne
    show Level.ofValue (.text s) = (Vocabulary.find Level.aliases s).elim _ _
    rw [Level.ofValue, if_pos hs, Value.display_text]
    cases Vocabulary.find Level.aliases s <;> rfl
  | category =>
    show Category.ofValue (.text s) = (Vocabulary.find Category.aliases s).elim _ _
    rw [Category.ofValue, Value.display_text]
    cases Vocabulary.find Category.aliases s <;> rfl
  | member l =>
    have hnames : (member l).names = l.members.map fun m => (m, m) := by
      cases l <;> rfl
    show l.find (.text s) = (Vocabulary.find (member l).names s).elim _ _
    rw [Lexicon.find, Value.display_text, hnames]
    cases Vocabulary.find (l.members.map fun m => (m, m)) s <;> rfl

variable {r} {s t : String}

theorem read_toOption (h : s = "" → r.unnamed = none) :
    (r.read s).toOption = Vocabulary.find r.names s := by
  rw [r.read_eq h]
  cases Vocabulary.find r.names s <;> rfl

/-- Accepted are the spellings of the names, and the empty text where it stands for something. -/
theorem read_eq_ok {a : r.Meaning} : r.read s = .ok a ↔
    (∃ name, (name, a) ∈ r.names ∧ Text.Respells name s) ∨ s = "" ∧ r.unnamed = some a := by
  rw [← Vocabulary.find_eq_some_iff r.distinct_names r.normalize_names]
  by_cases hexcept : s = "" → r.unnamed = none
  · have hnot : ¬ (s = "" ∧ r.unnamed = some a) := by
      rintro ⟨hs, ha⟩
      rw [hexcept hs] at ha
      cases ha
    rw [r.read_eq hexcept, or_iff_left hnot]
    cases Vocabulary.find r.names s with
    | none => simp
    | some b => simp
  · obtain ⟨rfl, hunnamed⟩ := Classical.not_imp.mp hexcept
    obtain ⟨b, hb⟩ := Option.ne_none_iff_exists'.mp hunnamed
    rw [r.read_empty hb, r.find_empty, hb]
    simp

/-- What is refused is refused as unknown. -/
theorem eq_refusal_of_read {e : Fault} (h : r.read s = .error e) : e = r.refusal s := by
  have hexcept : s = "" → r.unnamed = none := by
    rintro rfl
    by_contra hunnamed
    obtain ⟨a, ha⟩ := Option.ne_none_iff_exists'.mp hunnamed
    rw [r.read_empty ha] at h
    cases h
  rw [r.read_eq hexcept] at h
  cases hfind : Vocabulary.find r.names s with
  | none =>
    rw [hfind] at h
    exact (Except.error.inj h).symm
  | some a =>
    rw [hfind] at h
    cases h

/-- Blanks are read as a name, and as such they are unknown. -/
theorem read_blanks (hblank : Text.Respells "" t) (ht : t ≠ "") : (r.read t).toOption = none := by
  rw [read_toOption fun h => absurd h ht,
    Vocabulary.find_congr r.names (Text.normalize_of_respells hblank), r.find_empty]

/-- Two spellings of a text are read alike, unless one of them is empty, stands for something, and
the other one is not empty. -/
theorem read_alike_iff (hspelling : Text.Respells s t) :
    (r.read t).toOption = (r.read s).toOption ↔ (s = "" → t = "" ∨ r.unnamed = none) := by
  by_cases hs : s = ""
  · subst hs
    by_cases ht : t = ""
    · simp [ht]
    · rw [read_blanks hspelling ht]
      cases hunnamed : r.unnamed with
      | none =>
        rw [read_toOption fun _ => hunnamed, r.find_empty]
        simp
      | some a =>
        rw [r.read_empty hunnamed]
        simp [ht, Except.toOption]
  · have ht : t ≠ "" := hspelling.ne_empty hs
    rw [read_toOption fun h => absurd h ht, read_toOption fun h => absurd h hs,
      Vocabulary.find_congr r.names (Text.normalize_of_respells hspelling)]
    simp [hs]

/-! ### Main theorem -/

/-- **Names are read in every spelling.** Each reader accepts the spellings of its names, with
letters in any case and blanks around, and refuses every other text as unknown, but for the empty
text where that stands for something. Two spellings of a text are accepted as the same or both
refused, except that the empty text, where it stands for something, is not read like blanks. -/
theorem spellings_read_alike (r : NameReader) (s : String) :
    (∀ a, r.read s = .ok a ↔
      (∃ name, (name, a) ∈ r.names ∧ Text.Respells name s) ∨ s = "" ∧ r.unnamed = some a) ∧
    (∀ e, r.read s = .error e → e = r.refusal s) ∧
    ∀ t, Text.Respells s t →
      ((r.read t).toOption = (r.read s).toOption ↔ (s = "" → t = "" ∨ r.unnamed = none)) :=
  ⟨fun _ => read_eq_ok, fun _ => eq_refusal_of_read, fun _ => read_alike_iff⟩

/-- A name in capitals, between a tab and a blank. -/
theorem spellings_read_alike_of_padded_capitals :
    Text.Respells "full" "\tFULL " ∧ level.read "\tFULL " = .ok .full ∧
      (level.read "\tFULL ").toOption = (level.read "full").toOption := by
  have hspelling : Text.Respells "full" "\tFULL " :=
    ⟨['\t'], ['F', 'U', 'L', 'L'], [' '], rfl, List.forall_mem_singleton.mpr rfl,
      List.forall_mem_singleton.mpr rfl, rfl⟩
  have haccepted := ((spellings_read_alike level "\tFULL ").1 .full).mpr
    (.inl ⟨"full", by decide, hspelling⟩)
  have halike := ((spellings_read_alike level "full").2.2 _ hspelling).mpr (by decide)
  exact ⟨hspelling, haccepted, halike⟩

/-- The empty text is accepted as a level, although it is no spelling of a name, and a blank, which
is a spelling of it, is refused. -/
theorem blank_level_is_unknown :
    level.read "" = .ok .basic ∧ (∀ e ∈ level.names, ¬ Text.Respells e.1 "") ∧
      Text.Respells "" " " ∧ level.read " " = .error (.unknownLevel " ") := by
  have hblank : Text.Respells "" " " :=
    ⟨[' '], [], [], rfl, List.forall_mem_singleton.mpr rfl, List.forall_mem_nil _, rfl⟩
  refine ⟨rfl, fun e he hspelling => ?_, hblank, rfl⟩
  have hnormal := (Text.respells_iff (level.normalize_names e.1 (List.mem_map_of_mem he))).mp
    hspelling
  have hempty : ∀ e ∈ level.names, e.1 ≠ "" := by decide
  exact hempty e he hnormal.symm

end NameReader

end Equilibrium

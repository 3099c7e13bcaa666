import ContentSchema.Proofs.FirstRequests
import ContentSchema.Proofs.SeparatedTexts
import ContentSchema.Proofs.SortPaths

/-! Names that a query language accepts. What is made of a selector always is one; what is put
together from other texts is one exactly when these texts allow it. -/
namespace ContentSchema

namespace TypeName

/-- Name characters, of which the first one is no digit. -/
def beginsName (text : String) : Bool :=
  text.toList.all isNameChar && !text.toList.head?.any Char.isDigit

/-- A letter or an underscore, and after it letters, digits and underscores. -/
def isLegal (name : String) : Bool := !name.isEmpty && beginsName name

theorem beginsName_iff {text : String} : beginsName text = true ↔
    (∀ c ∈ text.toList, isNameChar c = true) ∧
      ∀ c, text.toList.head? = some c → c.isDigit = false := by
  simp [beginsName, Option.any_eq_false]

theorem isLegal_iff {name : String} : isLegal name = true ↔ name ≠ "" ∧ beginsName name = true := by
  simp [isLegal]

/-- A text with a character that no name has. -/
theorem not_isLegal_of_mem {text : String} {c : Char} (mem : c ∈ text.toList)
    (odd : isNameChar c = false) : isLegal text = false := by
  by_contra legal
  have begins := (isLegal_iff.mp (Bool.not_eq_false _ ▸ legal)).2
  rw [(beginsName_iff.mp begins).1 c mem] at odd
  cases odd

/-- A text with a legal name after it is legal exactly when a name may begin with it. -/
theorem isLegal_append_iff {text name : String} (legal : isLegal name = true) :
    isLegal (text ++ name) = true ↔ beginsName text = true := by
  obtain ⟨some, begins⟩ := isLegal_iff.mp legal
  obtain ⟨all, first⟩ := beginsName_iff.mp begins
  have more : text ++ name ≠ "" := fun none => some (String.append_eq_empty_iff.mp none).2
  rw [isLegal_iff, and_iff_right more, beginsName_iff, beginsName_iff, String.toList_append]
  constructor
  · rintro ⟨chars, head⟩
    refine ⟨fun c hc => chars c (List.mem_append_left _ hc), fun c hc => head c ?_⟩
    rw [List.head?_append, hc, Option.some_or]
  · rintro ⟨chars, head⟩
    refine ⟨fun c hc => (List.mem_append.mp hc).elim (chars c) (all c), fun c hc => ?_⟩
    rw [List.head?_append] at hc
    cases known : text.toList.head? with
    | none =>
      rw [known, Option.none_or] at hc
      exact first c hc
    | some d =>
      rw [known, Option.some_or] at hc
      exact head c (known.trans hc)

/-- A legal name stays legal with name characters after it. -/
theorem isLegal_append_of_all {name text : String} (legal : isLegal name = true)
    (all : ∀ c ∈ text.toList, isNameChar c = true) : isLegal (name ++ text) = true := by
  obtain ⟨some, begins⟩ := isLegal_iff.mp legal
  obtain ⟨chars, first⟩ := beginsName_iff.mp begins
  have more : name ++ text ≠ "" := fun none => some (String.append_eq_empty_iff.mp none).1
  refine isLegal_iff.mpr ⟨more, beginsName_iff.mpr ⟨fun c hc => ?_, fun c hc => first c ?_⟩⟩
  · rw [String.toList_append] at hc
    exact (List.mem_append.mp hc).elim (chars c) (all c)
  · rw [String.toList_append, List.head?_append] at hc
    cases known : name.toList with
    | nil => exact absurd (String.toList_eq_nil_iff.mp known) some
    | cons d rest =>
      rw [known] at hc
      exact hc

theorem toNat_lt_of_isNameChar {c : Char} (h : isNameChar c = true) : c.toNat < 0x80 := by
  have ranges : isNameChar c =
      (('A'.val ≤ c.val ∧ c.val ≤ 'Z'.val || 'a'.val ≤ c.val && c.val ≤ 'z'.val) ||
        '0'.val ≤ c.val && c.val ≤ '9'.val || c == '_') := rfl
  simp only [ranges, Bool.or_eq_true, Bool.and_eq_true, decide_eq_true_eq, beq_iff_eq,
    UInt32.le_iff_toNat_le] at h
  rcases h with ((h | h) | h) | rfl
  · exact Nat.lt_of_le_of_lt h.2 (by decide)
  · exact Nat.lt_of_le_of_lt h.2 (by decide)
  · exact Nat.lt_of_le_of_lt h.2 (by decide)
  · decide

/-- A name character is one of few. -/
theorem of_ascii {p : Char → Prop} {c : Char} (named : isNameChar c = true)
    (all : ∀ n < 0x80, isNameChar (Char.ofNat n) = true → p (Char.ofNat n)) : p c := by
  have known := all c.toNat (toNat_lt_of_isNameChar named)
  rw [Char.ofNat_toNat] at known
  exact known named

/-- Letters keep being letters in capitals and in small, and digits stay as they are. -/
theorem case_of_lt : ∀ n < 0x80, isNameChar (Char.ofNat n) = true →
    isNameChar (Char.ofNat n).toUpper = true ∧ isNameChar (Char.ofNat n).toLower = true ∧
      (Char.ofNat n).toLower.isDigit = (Char.ofNat n).isDigit := by
  decide +kernel

theorem isNameChar_case {c : Char} (h : isNameChar c = true) :
    isNameChar c.toUpper = true ∧ isNameChar c.toLower = true ∧
      c.toLower.isDigit = c.isDigit := by
  apply of_ascii h
  exact case_of_lt

theorem upper_of_isNameChar {c : Char} (h : isNameChar c = true) : Text.upper c = [c.toUpper] :=
  if_pos (toNat_lt_of_isNameChar h)

theorem lower_of_isNameChar {c : Char} (h : isNameChar c = true) : Text.lower c = [c.toLower] :=
  if_pos (toNat_lt_of_isNameChar h)

theorem beginsName_smallFirst {text : String} (begins : beginsName text = true) :
    beginsName (Text.smallFirst text) = true := by
  obtain ⟨chars, first⟩ := beginsName_iff.mp begins
  rw [Text.smallFirst]
  split
  · rfl
  · rename_i c rest spelled
    rw [spelled] at chars first
    obtain ⟨named, others⟩ := List.forall_mem_cons.mp chars
    obtain ⟨-, small, digit⟩ := isNameChar_case named
    rw [lower_of_isNameChar named, beginsName_iff, String.toList_ofList]
    refine ⟨List.forall_mem_cons.mpr ⟨small, others⟩, fun d hd => ?_⟩
    cases hd
    rw [digit]
    exact first c rfl

theorem isNameChar_of_mem_splitOnP {cs piece : List Char}
    (h : piece ∈ cs.splitOnP fun c => !isNameChar c) : ∀ c ∈ piece, isNameChar c = true := by
  intro c hc
  simpa using Text.not_of_mem_splitOnP h c hc

theorem isNameChar_of_mem_capitalised {w : List Char} (named : ∀ c ∈ w, isNameChar c = true) :
    ∀ c ∈ Text.capitalised w, isNameChar c = true := by
  cases w with
  | nil => exact nofun
  | cons c w =>
    obtain ⟨first, rest⟩ := List.forall_mem_cons.mp named
    rw [Text.capitalised, upper_of_isNameChar first]
    exact List.forall_mem_cons.mpr ⟨(isNameChar_case first).1, rest⟩

theorem isLegal_ofList_cons {c : Char} {rest : List Char} (noDigit : c.isDigit = false)
    (named : ∀ d ∈ c :: rest, isNameChar d = true) : isLegal (String.ofList (c :: rest)) = true := by
  refine isLegal_iff.mpr ⟨by simp, beginsName_iff.mpr ?_⟩
  rw [String.toList_ofList]
  refine ⟨named, fun d hd => ?_⟩
  cases hd
  exact noDigit

/-- A guard makes a legal name of name characters. -/
theorem isLegal_guardDigit {cs : List Char} (some : cs ≠ [])
    (named : ∀ c ∈ cs, isNameChar c = true) :
    isLegal (String.ofList (guardDigit cs)) = true := by
  obtain ⟨c, rest, rfl⟩ := List.exists_cons_of_ne_nil some
  rw [guardDigit]
  split
  · exact isLegal_ofList_cons (by decide) (List.forall_mem_cons.mpr ⟨by decide, named⟩)
  · rename_i noDigit
    exact isLegal_ofList_cons (Bool.eq_false_iff.mpr noDigit) named

/-- How a name shows a character. -/
def shown (c : Char) : Char := if isNameChar c then c else '_'

theorem isNameChar_shown (c : Char) : isNameChar (shown c) = true := by
  rw [shown]
  split
  · assumption
  · decide

/-- Whatever a selector is, the name that is made of it is legal. -/
theorem isLegal_ofSelector (selector : String) : isLegal (ofSelector selector) = true := by
  have named : ∀ c ∈ (words selector.toList).flatMap Text.capitalised, isNameChar c = true := by
    intro c hc
    obtain ⟨w, hw, hc⟩ := List.mem_flatMap.mp hc
    exact isNameChar_of_mem_capitalised
      (isNameChar_of_mem_splitOnP (List.mem_filter.mp hw).1) c hc
  rw [ofSelector, ofChars]
  split
  · decide
  · rename_i some
    exact isLegal_guardDigit some named

end TypeName

namespace Namer

theorem isLegal_numbered {base : String} (legal : TypeName.isLegal base = true) (k : Nat) :
    TypeName.isLegal (numbered base k) = true := by
  have suffix : ∀ c ∈ ("_" ++ toString k).toList, TypeName.isNameChar c = true := by
    intro c hc
    rw [String.toList_append, Nat.toString_eq_repr, Nat.toList_repr] at hc
    rcases List.mem_append.mp hc with underscore | digit
    · rw [List.mem_singleton.mp underscore]
      decide
    · have digit := Nat.isDigit_of_mem_toDigits (by decide) (by decide) digit
      simp [TypeName.isNameChar, Char.isAlphanum, digit]
  rw [numbered, String.append_assoc]
  exact TypeName.isLegal_append_of_all legal suffix

/-- A name that a namer makes up is legal. -/
theorem isLegal_freeName (n : Namer) (selector : String) :
    TypeName.isLegal (n.freeName (TypeName.ofSelector selector)) = true := by
  have legal := TypeName.isLegal_ofSelector selector
  obtain ⟨-, made⟩ | ⟨-, k, -, made, -⟩ := n.freeName_cases (TypeName.ofSelector selector)
  · rwa [made]
  · rw [made]
    exact isLegal_numbered legal (k + 2)

end Namer

namespace SortFields

theorem enumName_eq (path : List String) : enumName path =
    String.ofList (TypeName.guardDigit (("___".intercalate path).toList.map TypeName.shown)) :=
  rfl

/-- The name of a path is legal unless the path reads like nothing at all. -/
theorem isLegal_enumName_iff {path : List String} :
    TypeName.isLegal (enumName path) = true ↔ "___".intercalate path ≠ "" := by
  have none : ("___".intercalate path).toList.map TypeName.shown = [] ↔
      "___".intercalate path = "" := by
    rw [List.map_eq_nil_iff, String.toList_eq_nil_iff]
  rw [enumName_eq]
  constructor
  · intro legal empty
    rw [none.mpr empty] at legal
    exact absurd legal (by decide)
  · intro some
    refine TypeName.isLegal_guardDigit (mt none.mp some) ?_
    exact List.forall_mem_map.mpr fun c _ => TypeName.isNameChar_shown c

/-- Only a path of one empty key reads like nothing. -/
theorem intercalate_eq_empty_iff {key : String} {rest : List String} :
    "___".intercalate (key :: rest) = "" ↔ key = "" ∧ rest = [] := by
  cases rest with
  | nil => simp
  | cons next rest => simp [String.intercalate_cons_cons]

/-- The paths of some records have legal names unless a key is empty and leads to no fields. -/
theorem isLegal_keys_iff {records : List Record} :
    (∀ name ∈ Dictionary.keys (ofRecords records), TypeName.isLegal name = true) ↔
      ∀ v, ("", v) ∈ Example.ofRecords records → ∃ field rest, v = .mapping (field :: rest) := by
  have unnamed : [""] ∉ leaves maxDepth [] (Example.ofRecords records) ↔
      ∀ v, ("", v) ∈ Example.ofRecords records → ∃ field rest, v = .mapping (field :: rest) := by
    rw [singleton_mem_leaves_iff]
    push Not
    rfl
  rw [← unnamed]
  constructor
  · intro legal leaf
    have named := legal _ (mem_keys_ofRecords.mpr ⟨_, leaf, rfl⟩)
    exact isLegal_enumName_iff.mp named (by simp)
  · intro unnamed name hname
    obtain ⟨path, leaf, rfl⟩ := mem_keys_ofRecords.mp hname
    refine isLegal_enumName_iff.mpr fun empty => unnamed ?_
    obtain ⟨key, rest, rfl⟩ := List.exists_cons_of_ne_nil (ne_nil_of_mem_leaves leaf)
    obtain ⟨rfl, rfl⟩ := intercalate_eq_empty_iff.mp empty
    exact leaf

end SortFields
end ContentSchema

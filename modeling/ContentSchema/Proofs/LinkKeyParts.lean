import ContentSchema.Link.Key
import ContentSchema.Proofs.SeparatedTexts
import Mathlib.Data.List.DropRight

/-! Link keys taken apart. A key is found by its marker and cut at the first separator, which begins
earlier when the name before the marker ends in an underscore. -/
namespace ContentSchema.LinkKey

/-- The key under which a name holds a link, to the identifier or to a field of other records. -/
def written (name : String) : Option String → String
  | none => name ++ "___NODE"
  | some field => name ++ "___NODE___" ++ field

def Unseparated (text : String) : Prop := ¬ separator <:+: text.toList

instance (text : String) : Decidable (Unseparated text) :=
  inferInstanceAs (Decidable (¬ separator <:+: text.toList))

/-- A name without the underscores at its end. -/
def stem (name : String) : String := String.ofList (name.toList.rdropWhile (· == '_'))

/-- A key is known for a link, and gives back the name and the field that it was written with. -/
structure Decodes (name : String) (field : Option String) : Prop where
  isLink : isLink (written name field) = true
  clean : clean (written name field) = name
  base : base (written name field) = name
  linkedField : linkedField? (written name field) = field

/-- What a key holds after the first part. -/
def afterFirst (underscores : List Char) (field : Option String) : List Char :=
  (underscores ++ ['N', 'O', 'D', 'E']) ++ field.elim [] fun f => separator ++ f.toList

theorem toList_written (name : String) (field : Option String) :
    (written name field).toList = name.toList ++ (separator ++ afterFirst [] field) := by
  cases field with
  | none => exact String.toList_append
  | some f =>
    rw [written, String.toList_append, String.toList_append, List.append_assoc]
    rfl

theorem isLink_written (name : String) (field : Option String) :
    isLink (written name field) = true := by
  rw [isLink, Text.occursIn_iff, toList_written]
  exact ⟨name.toList, field.elim [] fun f => separator ++ f.toList, by simp [marker, afterFirst]⟩

/-- A part without separators and without an underscore at its end is what a key is cut after. -/
theorem splitAt_apart {part : List Char} (apart : Text.StaysApart 3 '_' part) (more : List Char) :
    Text.splitAt separator (part ++ (separator ++ more)) =
      part :: Text.splitAt separator more := by
  refine Text.splitAt_append nofun fun m some suffix begins => some ?_
  obtain ⟨front, rfl⟩ := suffix
  obtain ⟨tail, begins⟩ := begins
  exact apart.eq_nil begins

section
variable {name : String} {field : Option String}

/-- A name is its stem and not more than two underscores. -/
theorem exists_toList_eq (single : Unseparated name) :
    ∃ n < 3, name.toList = (stem name).toList ++ List.replicate n '_' := by
  set tail := name.toList.rtakeWhile (· == '_')
  have whole : name.toList = (stem name).toList ++ tail := by
    rw [stem, String.toList_ofList, List.rdropWhile_append_rtakeWhile]
  have only : tail = List.replicate tail.length '_' :=
    List.eq_replicate_of_mem fun c hc => by simpa using List.mem_rtakeWhile_imp hc
  refine ⟨tail.length, Nat.lt_of_not_le fun long => single ?_, only ▸ whole⟩
  obtain ⟨more, length⟩ := Nat.exists_eq_add_of_le long
  have inside : separator <+: tail := by
    rw [only, length, ← List.replicate_append_replicate]
    exact List.prefix_append _ _
  exact whole ▸ inside.isInfix.trans (List.suffix_append _ tail).isInfix

theorem staysApart_stem (single : Unseparated name) :
    Text.StaysApart 3 '_' (stem name).toList := by
  rw [stem, String.toList_ofList]
  refine ⟨fun inside => single ?_, fun last => ?_⟩
  · exact inside.trans (List.rdropWhile_prefix _ _).isInfix
  · obtain ⟨front, spelled⟩ := List.getLast?_eq_some_iff.mp last
    have some : name.toList.rdropWhile (· == '_') ≠ [] := by simp [spelled]
    exact List.rdropWhile_last_not _ _ some (by simp [spelled])

/-- Not more than two underscores before the word of the marker make no separator. -/
theorem staysApart_node {n : Nat} (few : n < 3) :
    Text.StaysApart 3 '_' (List.replicate n '_' ++ ['N', 'O', 'D', 'E']) := by
  have apart : ∀ n < 3,
      ¬ List.replicate 3 '_' <:+: List.replicate n '_' ++ ['N', 'O', 'D', 'E'] := by decide
  exact ⟨apart n few, by simp⟩

/-- In a key the first separator stands right after the stem. -/
theorem exists_toList_written_eq (single : Unseparated name) (field : Option String) :
    ∃ n < 3, (written name field).toList =
      (stem name).toList ++ (separator ++ afterFirst (List.replicate n '_') field) := by
  obtain ⟨n, few, spelled⟩ := exists_toList_eq single
  have moved : List.replicate n '_' ++ separator = separator ++ List.replicate n '_' := by
    rw [show separator = List.replicate 3 '_' from rfl, List.replicate_append_replicate,
      List.replicate_append_replicate, Nat.add_comm]
  refine ⟨n, few, ?_⟩
  rw [toList_written, spelled, List.append_assoc, ← List.append_assoc (List.replicate n '_'),
    moved, List.append_assoc, afterFirst, afterFirst, List.nil_append, List.append_assoc]

/-- The stem is the first part of a key, and the field that was given is the third one. -/
theorem parts_written (single : Unseparated name) (proper : ∀ f ∈ field, Unseparated f) :
    ∃ middle, parts (written name field) = stem name :: middle :: field.toList := by
  obtain ⟨n, few, spelled⟩ := exists_toList_written_eq single field
  have node := staysApart_node few
  refine ⟨String.ofList (List.replicate n '_' ++ ['N', 'O', 'D', 'E']), ?_⟩
  rw [parts, spelled, splitAt_apart (staysApart_stem single), afterFirst]
  cases field with
  | none =>
    have whole : ¬ separator <:+: List.replicate n '_' ++ ['N', 'O', 'D', 'E'] := node.single
    rw [Option.elim_none, List.append_nil, Text.splitAt_eq_singleton whole]
    simp
  | some f =>
    rw [Option.elim_some, splitAt_apart node, Text.splitAt_eq_singleton (proper f rfl)]
    simp

theorem stem_eq_self_iff : stem name = name ↔ name.toList.getLast? ≠ some '_' := by
  rw [← String.toList_inj, stem, String.toList_ofList, List.rdropWhile_eq_self_iff]
  constructor
  · intro ends last
    obtain ⟨front, spelled⟩ := List.getLast?_eq_some_iff.mp last
    exact ends (by simp [spelled]) (by simp [spelled])
  · intro last some ends
    rw [List.getLast?_eq_some_getLast some] at last
    exact last (congrArg _ (by simpa using ends))

/-- Link keys are known for what they are, and the field of the linked record is read back. The name
is read without the underscores at its end, so it is read back exactly when it has none there. -/
theorem decodes_iff (single : Unseparated name) (proper : ∀ f ∈ field, f ≠ "" ∧ Unseparated f) :
    (isLink (written name field) = true ∧ clean (written name field) = stem name ∧
      base (written name field) = stem name ∧ linkedField? (written name field) = field) ∧
    (Decodes name field ↔ name.toList.getLast? ≠ some '_') := by
  obtain ⟨middle, parts⟩ := parts_written single fun f hf => (proper f hf).2
  have link := isLink_written name field
  have first : base (written name field) = stem name := by rw [base, parts, List.headD_cons]
  have cleaned : clean (written name field) = stem name := by rw [clean, if_pos link, first]
  have third : linkedField? (written name field) = field := by
    rw [linkedField?, parts]
    cases field with
    | none => rfl
    | some f => simpa using (proper f rfl).1
  refine ⟨⟨link, cleaned, first, third⟩, ?_⟩
  rw [← stem_eq_self_iff]
  constructor
  · intro decodes
    rw [← first, decodes.base]
  · intro whole
    exact ⟨link, cleaned.trans whole, first.trans whole, third⟩

end

/-- A name and a field with an underscore at the border of the marker. -/
theorem decodes_author :
    Unseparated "author" ∧ (∀ f ∈ some "_email_", f ≠ "" ∧ Unseparated f) ∧
      written "author" (some "_email_") = "author___NODE____email_" ∧
      Decodes "author" (some "_email_") := by
  have single : Unseparated "author" := by decide +kernel
  have proper : ∀ f ∈ some "_email_", f ≠ "" ∧ Unseparated f := by
    rintro _ ⟨⟩
    exact ⟨by decide +kernel, by decide +kernel⟩
  exact ⟨single, proper, by decide +kernel, (decodes_iff single proper).2.mpr (by decide +kernel)⟩

/-- A name that ends in an underscore loses it. -/
theorem not_decodes_photo :
    "photo_" ≠ "" ∧ Unseparated "photo_" ∧ written "photo_" none = "photo____NODE" ∧
      clean "photo____NODE" = "photo" ∧ base "photo____NODE" = "photo" ∧
      ¬ Decodes "photo_" none := by
  have cleaned : clean "photo____NODE" = "photo" := by decide +kernel
  have key : written "photo_" none = "photo____NODE" := by decide +kernel
  refine ⟨by decide +kernel, by decide +kernel, key, cleaned, by decide +kernel, fun decodes => ?_⟩
  have same := decodes.clean
  rw [key, cleaned] at same
  exact absurd same (by decide +kernel)

end ContentSchema.LinkKey

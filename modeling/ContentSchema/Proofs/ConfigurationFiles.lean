import ContentSchema.Configuration
import ContentSchema.Proofs.ReadObjects
import Mathlib.Data.List.Nodup

/-! Configuration files. A file is refused as a configuration unless it is an object with a mapping
that is an object, null or missing; but a mapping of another kind goes unnoticed when it is empty,
false or zero. -/
namespace ContentSchema

/-- Failures that are told as failures of a configuration. A number that is too long to be read and
data that has no members fail otherwise. -/
def ConfigurationError.isOwn : ConfigurationError → Bool
  | .wholeTooLong _ | .withoutMembers => false
  | _ => true

namespace Json

/-- What counts as missing although it is neither null nor an object: false, a zero, an empty text
or list. -/
def Tree.isHollow : Tree → Bool
  | .bool b => !b
  | .whole n => n == 0
  | .number x => x.isZero
  | .text s => s.isEmpty
  | .array items => items.isEmpty
  | _ => false

/-- The members of an object in order, each with its value as a text. -/
def textEntries (members : Dictionary Tree Points) : Dictionary String :=
  members.map fun (key, t) => (textOf key, t.display)

theorem not_surrogate (c : Char) : ¬ (0xD800 ≤ c.toNat ∧ c.toNat < 0xE000) := by
  have valid := c.valid
  simp only [UInt32.isValidChar, Nat.isValidChar] at valid
  simp only [Char.toNat]
  omega

/-- Nothing is replaced in the code points of a text. -/
theorem textOf_pointsOf (s : String) : textOf (pointsOf s) = s := by
  have same (c : Char) :
      Char.ofNat (if 0xD800 ≤ c.toNat ∧ c.toNat < 0xE000 then 0xFFFD else c.toNat) = c := by
    rw [if_neg (not_surrogate c), Char.ofNat_toNat]
  rw [textOf, pointsOf, List.map_map]
  calc
    _ = String.ofList (s.toList.map id) :=
      congrArg String.ofList (List.map_congr_left fun c _ => same c)
    _ = s := by rw [List.map_id, String.ofList_toList]

/-- Keys that are texts stay apart as texts. -/
theorem ofList_textEntries {members : Dictionary Tree Points}
    (distinct : (Dictionary.keys members).Nodup)
    (texts : ∀ key ∈ Dictionary.keys members, ∃ s, key = pointsOf s) :
    Dictionary.ofList (textEntries members) = textEntries members := by
  refine Dictionary.ofList_eq_self ?_
  have keys : Dictionary.keys (textEntries members) = (Dictionary.keys members).map textOf := by
    simp [textEntries, Dictionary.keys]
  rw [keys]
  refine List.Nodup.map_on (fun k hk l hl same => ?_) distinct
  obtain ⟨s, rfl⟩ := texts k hk
  obtain ⟨t, rfl⟩ := texts l hl
  rw [textOf_pointsOf, textOf_pointsOf] at same
  rw [same]

end Json

namespace Configuration
open Json (Tree Points textEntries)

/-- The members of the object that a file holds, if it holds one. -/
def membersOf? (content : Option String) : Option (Dictionary Tree Points) :=
  content.bind fun text => match Json.read text with
    | .ok (.object members) => some members
    | _ => none

/-- The mapping among some members, null when there is none. -/
def mappingOf (members : Dictionary Tree Points) : Tree :=
  (Dictionary.get? members (Json.pointsOf "mapping")).getD .null

/-- The configuration that a file is documented to give. -/
inductive Gives (content : Option String) : Configuration → Prop
  | unmapped {members : Dictionary Tree Points} (object : membersOf? content = some members)
      (missing : mappingOf members = .null) : Gives content empty
  | mapped {members entries : Dictionary Tree Points} (object : membersOf? content = some members)
      (found : mappingOf members = .object entries) :
      Gives content ⟨Dictionary.ofList (textEntries entries)⟩

/-- A file gives what it is documented to give, and fails as a configuration where that is none. -/
structure AsDocumented (path : String) (content : Option String) : Prop where
  gives : ∀ config, load path content = .ok config ↔ Gives content config
  fails : ∀ e, load path content = .error e → e.isOwn = true

/-- Whether the mapping of an object is of another kind and counts as missing. -/
def overlooksMapping (content : Option String) : Bool :=
  (membersOf? content).any fun members => (mappingOf members).isHollow

section
variable {path : String} {content : Option String} {members : Dictionary Tree Points}

theorem membersOf?_eq_some_iff : membersOf? content = some members ↔
    ∃ text, content = some text ∧ Json.read text = .ok (.object members) := by
  rw [membersOf?, Option.bind_eq_some_iff]
  refine exists_congr fun text => and_congr_right fun _ => ?_
  split <;> simp_all

theorem get?_eq_of_mappingOf {entries : Dictionary Tree Points}
    (found : mappingOf members = .object entries) :
    Dictionary.get? members (Json.pointsOf "mapping") = some (.object entries) := by
  unfold mappingOf at found
  cases present : Dictionary.get? members (Json.pointsOf "mapping") with
  | none =>
    rw [present] at found
    cases found
  | some mapping =>
    rw [present] at found
    exact congrArg some found

/-- No key of a mapping is written twice. -/
theorem nodup_keys_of_mappingOf {entries : Dictionary Tree Points}
    (object : membersOf? content = some members) (found : mappingOf members = .object entries) :
    (Dictionary.keys entries).Nodup := by
  obtain ⟨text, rfl, read⟩ := membersOf?_eq_some_iff.mp object
  have mem := Dictionary.mem_of_get? (get?_eq_of_mappingOf found)
  exact ((Json.keysApart_of_read read).child _ (List.mem_map_of_mem mem)).own

/-- A file without an object is refused. -/
theorem exists_load_of_none (short : ∀ text ∈ content, Json.wholesReadable text = true)
    (none : membersOf? content = none) : ∃ e, load path content = .error e ∧ e.isOwn = true := by
  cases content with
  | none => exact ⟨.notFound path, rfl, rfl⟩
  | some text =>
    rw [load]
    cases read : Json.read text with
    | error e =>
      cases e with
      | malformed => exact ⟨.malformed path, rfl, rfl⟩
      | wholeTooLong digits => exact absurd read (Json.read_ne_wholeTooLong (short text rfl) digits)
    | ok v =>
      cases v with
      | object members =>
        rw [membersOf?_eq_some_iff.mpr ⟨text, rfl, read⟩] at none
        cases none
      | _ => exact ⟨.rootNotObject path, rfl, rfl⟩

/-- A file with an object is judged by its mapping. -/
theorem load_of_members (object : membersOf? content = some members) :
    load path content = ofMapping (mappingOf members).toValue (mappingOf members).entries? := by
  obtain ⟨text, rfl, read⟩ := membersOf?_eq_some_iff.mp object
  rw [load, read, mappingOf]
  dsimp only
  cases Dictionary.get? members (Json.pointsOf "mapping") <;> rfl

end

/-- A mapping that is an object becomes the configuration, the empty one as well. -/
theorem ofMapping_object (entries : Dictionary Tree Points) :
    ofMapping (Tree.object entries).toValue (Tree.object entries).entries? =
      .ok ⟨Dictionary.ofList (textEntries entries)⟩ := by
  cases entries with
  | nil => rfl
  | cons entry entries =>
    have some : Dictionary.ofList (Tree.toFields (entry :: entries)) ≠ [] :=
      Dictionary.ofList_ne_nil nofun
    have present : (Tree.object (entry :: entries)).toValue.isTruthy = true := by
      simpa [Tree.toValue, Value.isTruthy] using some
    exact if_pos present

section
variable {t : Tree}

/-- Of data that is neither null nor an object only the hollow kinds count as missing. -/
theorem isTruthy_toValue (some : t ≠ .null) (other : ∀ entries, t ≠ .object entries) :
    t.toValue.isTruthy = !t.isHollow := by
  cases t with
  | null => exact absurd rfl some
  | object entries => exact absurd rfl (other entries)
  | bool b => exact (Bool.not_not b).symm
  | whole n => rfl
  | number x => rfl
  | text s => cases s <;> simp [Tree.toValue, Value.isTruthy, Tree.isHollow, Json.textOf]
  | array items => cases items <;> rfl

theorem ofMapping_of_isHollow (hollow : t.isHollow = true) :
    ofMapping t.toValue t.entries? = .ok empty := by
  have missing : t.toValue.isTruthy = false := by
    rw [isTruthy_toValue, hollow]
    · rfl
    · rintro rfl
      cases hollow
    · rintro entries rfl
      cases hollow
  exact if_neg (Bool.eq_false_iff.mp missing)

theorem exists_ofMapping_of_other (some : t ≠ .null) (other : ∀ entries, t ≠ .object entries)
    (solid : t.isHollow = false) :
    ∃ className, ofMapping t.toValue t.entries? = .error (.mappingNotObject className) := by
  have present : t.toValue.isTruthy = true := by
    rw [isTruthy_toValue some other, solid]
    rfl
  have noEntries : t.entries? = none := by
    cases t with
    | object entries => exact absurd rfl (other entries)
    | _ => rfl
  exact ⟨t.toValue.className, by rw [ofMapping.eq_def, if_pos present, noEntries]⟩

end

section
variable {path : String} {content : Option String} {config : Configuration}

theorem gives_iff {members : Dictionary Tree Points} (object : membersOf? content = some members) :
    Gives content config ↔ mappingOf members = .null ∧ config = empty ∨
      ∃ entries, mappingOf members = .object entries ∧
        config = ⟨Dictionary.ofList (textEntries entries)⟩ := by
  constructor
  · rintro (⟨same, missing⟩ | ⟨same, found⟩) <;> cases object.symm.trans same
    · exact Or.inl ⟨missing, rfl⟩
    · exact Or.inr ⟨_, found, rfl⟩
  · rintro (⟨missing, rfl⟩ | ⟨_, found, rfl⟩)
    · exact .unmapped object missing
    · exact .mapped object found

/-- A file whose mapping is not overlooked is taken as documented, or it is refused. -/
theorem load_cases (short : ∀ text ∈ content, Json.wholesReadable text = true)
    (seen : overlooksMapping content = false) :
    (∃ config, load path content = .ok config ∧ ∀ c, Gives content c ↔ c = config) ∨
      ∃ e, load path content = .error e ∧ e.isOwn = true ∧ ∀ c, ¬ Gives content c := by
  cases object : membersOf? content with
  | none =>
    obtain ⟨e, failed, own⟩ := exists_load_of_none short object
    refine Or.inr ⟨e, failed, own, fun c gives => ?_⟩
    cases gives with
    | unmapped some _ => cases object.symm.trans some
    | mapped some _ => cases object.symm.trans some
  | some members =>
    have solid : (mappingOf members).isHollow = false := by
      simpa [overlooksMapping, object] using seen
    simp only [load_of_members object, gives_iff object]
    by_cases missing : mappingOf members = .null
    · rw [missing]
      exact Or.inl ⟨empty, rfl, fun c => by simp⟩
    · by_cases found : ∃ entries, mappingOf members = .object entries
      · obtain ⟨entries, found⟩ := found
        rw [found]
        exact Or.inl ⟨_, ofMapping_object entries, fun c => by simp⟩
      · have other := not_exists.mp found
        obtain ⟨className, failed⟩ := exists_ofMapping_of_other missing other solid
        exact Or.inr ⟨_, failed, rfl, fun c => by simp [missing, other]⟩

theorem asDocumented_of_seen (short : ∀ text ∈ content, Json.wholesReadable text = true)
    (seen : overlooksMapping content = false) : AsDocumented path content := by
  obtain ⟨config, taken, given⟩ | ⟨e, failed, own, refused⟩ := load_cases short seen
  · refine ⟨fun c => ?_, fun e failed => ?_⟩
    · rw [taken, given, Except.ok.injEq, eq_comm]
    · cases taken.symm.trans failed
  · refine ⟨fun c => ?_, fun e' failed' => ?_⟩
    · rw [failed]
      exact iff_of_false nofun (refused c)
    · cases failed.symm.trans failed'
      exact own

/-- A mapping that is overlooked configures nothing, though no such configuration is documented. -/
theorem load_of_overlooksMapping (overlooked : overlooksMapping content = true) :
    load path content = .ok empty ∧ ¬ AsDocumented path content := by
  obtain ⟨members, object, hollow⟩ := (Option.any_eq_true _ _).mp overlooked
  have taken : load path content = .ok empty := by
    rw [load_of_members object, ofMapping_of_isHollow hollow]
  refine ⟨taken, fun documented => ?_⟩
  obtain ⟨missing, -⟩ | ⟨_, found, -⟩ := (gives_iff object).mp ((documented.gives empty).mp taken)
  · rw [missing] at hollow
    cases hollow
  · rw [found] at hollow
    cases hollow

/-- A file gives what it is documented to give, and fails as a configuration in every other case,
exactly when its mapping is not overlooked; if it is, nothing is configured. A mapping that is an
object gives its entries in order, provided that no key has a surrogate that stands alone. -/
theorem load_asDocumented_iff (path : String) {content : Option String}
    (short : ∀ text ∈ content, Json.wholesReadable text = true) :
    (AsDocumented path content ↔ overlooksMapping content = false) ∧
      (overlooksMapping content = true → load path content = .ok empty) ∧
      ∀ members entries, membersOf? content = some members → mappingOf members = .object entries →
        (∀ key ∈ Dictionary.keys entries, ∃ s, key = Json.pointsOf s) →
        load path content = .ok ⟨textEntries entries⟩ := by
  refine ⟨⟨fun documented => ?_, asDocumented_of_seen short⟩,
    fun overlooked => (load_of_overlooksMapping overlooked).1, ?_⟩
  · exact Bool.eq_false_iff.mpr fun overlooked => (load_of_overlooksMapping overlooked).2 documented
  · intro members entries object found texts
    rw [load_of_members object, found, ofMapping_object,
      Json.ofList_textEntries (nodup_keys_of_mappingOf object found) texts]

end

/-- A file that maps a field to a text and another one to a number. -/
private def authorsFile : String :=
  "\x7b\"mapping\": \x7b\"Post.author\": \"Author\", \"Post.year\": 2020\x7d\x7d"

private def authorsMapping : Dictionary Tree Points :=
  [(Json.pointsOf "Post.author", .text (Json.pointsOf "Author")),
    (Json.pointsOf "Post.year", .whole 2020)]

theorem load_asDocumented_authors :
    (∀ text ∈ some authorsFile, Json.wholesReadable text = true) ∧
      AsDocumented "config.json" (some authorsFile) ∧
      load "config.json" (some authorsFile) =
        .ok ⟨[("Post.author", "Author"), ("Post.year", "2020")]⟩ := by
  have short : ∀ text ∈ some authorsFile, Json.wholesReadable text = true := by
    rintro _ ⟨⟩
    decide +kernel
  obtain ⟨documented, -, inOrder⟩ := load_asDocumented_iff "config.json" short
  have object : membersOf? (some authorsFile) =
      some [(Json.pointsOf "mapping", .object authorsMapping)] :=
    membersOf?_eq_some_iff.mpr ⟨authorsFile, rfl, rfl⟩
  have texts : ∀ key ∈ Dictionary.keys authorsMapping, ∃ s, key = Json.pointsOf s := by
    simp [authorsMapping, Dictionary.keys]
  exact ⟨short, documented.mpr (by decide +kernel), inOrder _ authorsMapping object rfl texts⟩

/-- An empty list in the place of the mapping is taken for no mapping. -/
theorem load_overlooks_list :
    Json.wholesReadable "\x7b\"mapping\": []\x7d" = true ∧
      load "config.json" (some "\x7b\"mapping\": []\x7d") = .ok empty ∧
      ¬ AsDocumented "config.json" (some "\x7b\"mapping\": []\x7d") := by
  refine ⟨by decide +kernel, load_of_overlooksMapping ?_⟩
  decide +kernel

end Configuration
end ContentSchema

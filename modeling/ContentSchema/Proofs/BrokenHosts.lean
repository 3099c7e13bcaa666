import ContentSchema.Link.Location

/-! The locations of which it can be told whether they are the path of a file: those whose host, if
there is one, is sound. Where media types are told by the colon, the host counts for less. -/
namespace ContentSchema

/-- A step that cannot fail adds no failure. -/
theorem exists_bind_eq_ok_iff {ε α β : Type} {x : Except ε α} {f : α → Except ε β}
    (total : ∀ a, ∃ b, f a = .ok b) : (∃ b, x >>= f = .ok b) ↔ ∃ a, x = .ok a := by
  cases x with
  | error e => exact iff_of_false nofun nofun
  | ok a => exact iff_of_true (total a) ⟨a, rfl⟩

theorem exists_unit_eq_ok_iff {ε : Type} {x : Except ε Unit} : (∃ u, x = .ok u) ↔ x = .ok () :=
  ⟨fun ⟨_, done⟩ => done, fun done => ⟨_, done⟩⟩

namespace Url

/-- What may stand between brackets: an address of a later version or one in groups. -/
def IsNumericHost (inner : List Char) : Prop :=
  Address.isFuture inner = true ∨
    inner.head? ≠ some 'v' ∧ Address.isDotted inner = false ∧ Address.isGrouped inner = true

/-- In the host of a location there is a bracket without its partner, a pair of brackets around no
address, or a character that stands for a delimiter. -/
def HasBrokenHost (location : List Char) : Prop :=
  let h := (split location).host
  ¬ ('[' ∈ h ↔ ']' ∈ h) ∨ '[' ∈ h ∧ ¬ IsNumericHost (bracketed h) ∨
    ∃ c ∈ h, c.toNat ∈ delimiterLookalikes

theorem checkBracketed_eq_ok_iff {inner : List Char} :
    checkBracketed inner = .ok () ↔ IsNumericHost inner := by
  unfold checkBracketed IsNumericHost
  by_cases future : inner.head? = some 'v'
  · simp [future]
  · have other : Address.isFuture inner = false := by
      unfold Address.isFuture
      split
      · exact absurd rfl future
      · rfl
    cases Address.isDotted inner <;> simp [future, other]

theorem checkHost_eq_ok_iff {h : List Char} :
    checkHost h = .ok () ↔ ('[' ∈ h ↔ ']' ∈ h) ∧ ('[' ∈ h → IsNumericHost (bracketed h)) ∧
      ∀ c ∈ h, c.toNat ∉ delimiterLookalikes := by
  rw [checkHost, ← checkBracketed_eq_ok_iff]
  by_cases partners : '[' ∈ h ↔ ']' ∈ h
  · by_cases bracket : '[' ∈ h
    · have closed := partners.mp bracket
      cases checkBracketed (bracketed h) with
      | error e => simp [bracket, closed, bind, Except.bind]
      | ok u => simp [bracket, closed, bind, Except.bind, throw, pure, Except.pure]
    · have closed : ']' ∉ h := fun closed => bracket (partners.mpr closed)
      simp [bracket, closed, throw, throwThe, MonadExceptOf.throw, pure, Except.pure]
  · simp [partners, throw, throwThe, MonadExceptOf.throw, bind, Except.bind]

theorem exists_parse_iff {location : List Char} :
    (∃ url, parse location = .ok url) ↔ ¬ HasBrokenHost location := by
  have sound : (∃ u, checkHost (split location).host = .ok u) ↔ ¬ HasBrokenHost location := by
    rw [exists_unit_eq_ok_iff, checkHost_eq_ok_iff, HasBrokenHost]
    simp only [not_or, Classical.not_not, not_exists, not_and]
  exact (exists_bind_eq_ok_iff fun _ => ⟨_, rfl⟩).trans sound

end Url

namespace MediaType

theorem Convention.exists_split_iff {convention : Convention} {location : List Char} :
    (∃ parts, convention.split location = .ok parts) ↔
      (convention = .url → ¬ Url.HasBrokenHost location) := by
  rw [← Url.exists_parse_iff]
  cases convention with
  | colon => exact iff_of_true ⟨_, rfl⟩ nofun
  | url =>
    refine (exists_bind_eq_ok_iff fun _ => ⟨_, rfl⟩).trans ?_
    exact ⟨fun found _ => found, fun found => found rfl⟩

/-- Only where locations are read as URLs can a broken host be in the way. -/
theorem exists_isInformative_iff {convention : Convention} {s : String} :
    (∃ known, isInformative convention s = .ok known) ↔
      (convention = .url → ¬ Url.HasBrokenHost s.toList) := by
  rw [← Convention.exists_split_iff]
  refine exists_bind_eq_ok_iff fun parts => ?_
  split
  · split <;> exact ⟨_, rfl⟩
  · exact ⟨_, rfl⟩

end MediaType

namespace Location

theorem exists_isRelativeUrl_iff {location : List Char}
    (relative : isRelativePath location = true) :
    (∃ isRelative, isRelativeUrl location = .ok isRelative) ↔ ¬ Url.HasBrokenHost location := by
  rw [← Url.exists_parse_iff]
  unfold isRelativeUrl
  split
  · cases relative
  · exact exists_bind_eq_ok_iff fun _ => ⟨_, rfl⟩

theorem isFilePath_text_eq {convention : MediaType.Convention} {s : String} {known : Bool}
    (judged : MediaType.isInformative convention s = .ok known) :
    isFilePath convention (.text s) =
      if (known && isRelativePath s.toList) = true then isRelativeUrl s.toList else .ok false := by
  rw [isFilePath, judged]
  rfl

/-- The texts of which it can be told whether they are the path of a file. -/
theorem exists_isFilePath_text_iff {convention : MediaType.Convention} {s : String} :
    (∃ isPath, isFilePath convention (.text s) = .ok isPath) ↔
      ¬ (Url.HasBrokenHost s.toList ∧ (convention = .colon →
        MediaType.isInformative .colon s = .ok true ∧ isRelativePath s.toList = true)) := by
  have told := @MediaType.exists_isInformative_iff convention s
  cases judged : MediaType.isInformative convention s with
  | error e =>
    obtain ⟨url, broken⟩ : convention = .url ∧ Url.HasBrokenHost s.toList := by
      simpa [judged] using told
    rw [isFilePath, judged]
    refine iff_of_false nofun fun whole => whole ⟨broken, ?_⟩
    rw [url]
    exact nofun
  | ok known =>
    have sound := told.mp ⟨known, judged⟩
    rw [isFilePath_text_eq judged]
    by_cases candidate : known = true ∧ isRelativePath s.toList = true
    · obtain ⟨rfl, relative⟩ := candidate
      have lost (colon : convention = .colon) :
          MediaType.isInformative .colon s = .ok true ∧ isRelativePath s.toList = true :=
        ⟨colon ▸ judged, relative⟩
      rw [and_iff_left lost, relative, Bool.and_self, if_pos rfl,
        exists_isRelativeUrl_iff relative]
    · rw [if_neg (by simpa using candidate)]
      refine iff_of_true ⟨false, rfl⟩ fun ⟨broken, lost⟩ => ?_
      cases convention with
      | url => exact sound rfl broken
      | colon =>
        obtain ⟨informative, relative⟩ := lost rfl
        cases judged.symm.trans informative
        exact candidate ⟨rfl, relative⟩

end Location
end ContentSchema

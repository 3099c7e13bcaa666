import ContentSchema.Registry

/-! Types under other keys and with other names. Renaming a type twice is one renaming, and only the
links that a type has matter to the new keys. -/
namespace ContentSchema.SchemaType
variable {κ μ ν : Type}

section
variable (key : κ → μ) (name : String → String)

mutual
/-- A type with links to other keys, and with other names of the definitions inside it. -/
def rename : SchemaType κ → SchemaType μ
  | scalar s => scalar s
  | list item => list item.rename
  | nonNull item => nonNull item.rename
  | named (.object own fields) => named (.object (name own) (renameFields fields))
  | named (.input own fields) => named (.input (name own) (renameInputs fields))
  | named (.enum own values) => named (.enum (name own) values)
  | link target => link (key target)
def renameFields : List (String × Field (SchemaType κ)) → List (String × Field (SchemaType μ))
  | [] => []
  | (k, ⟨type, args, resolver⟩) :: rest =>
    (k, ⟨type.rename, renameArguments args, resolver⟩) :: renameFields rest
def renameArguments :
    List (String × Argument (SchemaType κ)) → List (String × Argument (SchemaType μ))
  | [] => []
  | (k, ⟨type, description, default⟩) :: rest =>
    (k, ⟨type.rename, description, default⟩) :: renameArguments rest
def renameInputs :
    List (String × InputField (SchemaType κ)) → List (String × InputField (SchemaType μ))
  | [] => []
  | (k, ⟨type, default⟩) :: rest => (k, ⟨type.rename, default⟩) :: renameInputs rest
end

end

mutual
/-- The keys that a type has links to. -/
def links : SchemaType κ → List κ
  | scalar _ => []
  | list item => item.links
  | nonNull item => item.links
  | named (.object _ fields) => linksOfFields fields
  | named (.input _ fields) => linksOfInputs fields
  | named (.enum _ _) => []
  | link target => [target]
def linksOfFields : List (String × Field (SchemaType κ)) → List κ
  | [] => []
  | (_, ⟨type, args, _⟩) :: rest => type.links ++ (linksOfArguments args ++ linksOfFields rest)
def linksOfArguments : List (String × Argument (SchemaType κ)) → List κ
  | [] => []
  | (_, ⟨type, _, _⟩) :: rest => type.links ++ linksOfArguments rest
def linksOfInputs : List (String × InputField (SchemaType κ)) → List κ
  | [] => []
  | (_, ⟨type, _⟩) :: rest => type.links ++ linksOfInputs rest
end

section
variable (key : κ → μ) (name : String → String) (further : μ → ν) (again : String → String)

mutual
theorem rename_rename : ∀ t : SchemaType κ,
    (t.rename key name).rename further again = t.rename (further ∘ key) (again ∘ name)
  | scalar _ | link _ | named (.enum _ _) => by simp [rename]
  | list item | nonNull item => by simp [rename, rename_rename item]
  | named (.object own fields) => by simp [rename, renameFields_renameFields fields]
  | named (.input own fields) => by simp [rename, renameInputs_renameInputs fields]
theorem renameFields_renameFields : ∀ fields : List (String × Field (SchemaType κ)),
    renameFields further again (renameFields key name fields) =
      renameFields (further ∘ key) (again ∘ name) fields
  | [] => rfl
  | (_, ⟨type, args, _⟩) :: rest => by
    simp [renameFields, rename_rename type, renameArguments_renameArguments args,
      renameFields_renameFields rest]
theorem renameArguments_renameArguments : ∀ args : List (String × Argument (SchemaType κ)),
    renameArguments further again (renameArguments key name args) =
      renameArguments (further ∘ key) (again ∘ name) args
  | [] => rfl
  | (_, ⟨type, _, _⟩) :: rest => by
    simp [renameArguments, rename_rename type, renameArguments_renameArguments rest]
theorem renameInputs_renameInputs : ∀ fields : List (String × InputField (SchemaType κ)),
    renameInputs further again (renameInputs key name fields) =
      renameInputs (further ∘ key) (again ∘ name) fields
  | [] => rfl
  | (_, ⟨type, _⟩) :: rest => by
    simp [renameInputs, rename_rename type, renameInputs_renameInputs rest]
end

mutual
theorem links_rename : ∀ t : SchemaType κ, (t.rename key name).links = t.links.map key
  | scalar _ | link _ | named (.enum _ _) => by simp [rename, links]
  | list item | nonNull item => by simp [rename, links, links_rename item]
  | named (.object own fields) => by simp [rename, links, linksOfFields_renameFields fields]
  | named (.input own fields) => by simp [rename, links, linksOfInputs_renameInputs fields]
theorem linksOfFields_renameFields : ∀ fields : List (String × Field (SchemaType κ)),
    linksOfFields (renameFields key name fields) = (linksOfFields fields).map key
  | [] => rfl
  | (_, ⟨type, args, _⟩) :: rest => by
    simp [renameFields, linksOfFields, links_rename type, linksOfArguments_renameArguments args,
      linksOfFields_renameFields rest]
theorem linksOfArguments_renameArguments : ∀ args : List (String × Argument (SchemaType κ)),
    linksOfArguments (renameArguments key name args) = (linksOfArguments args).map key
  | [] => rfl
  | (_, ⟨type, _, _⟩) :: rest => by
    simp [renameArguments, linksOfArguments, links_rename type,
      linksOfArguments_renameArguments rest]
theorem linksOfInputs_renameInputs : ∀ fields : List (String × InputField (SchemaType κ)),
    linksOfInputs (renameInputs key name fields) = (linksOfInputs fields).map key
  | [] => rfl
  | (_, ⟨type, _⟩) :: rest => by
    simp [renameInputs, linksOfInputs, links_rename type, linksOfInputs_renameInputs rest]
end

end

mutual
theorem rename_id : ∀ t : SchemaType κ, t.rename id id = t
  | scalar _ | link _ | named (.enum _ _) => by simp [rename]
  | list item | nonNull item => by simp [rename, rename_id item]
  | named (.object own fields) => by simp [rename, renameFields_id fields]
  | named (.input own fields) => by simp [rename, renameInputs_id fields]
theorem renameFields_id : ∀ fields : List (String × Field (SchemaType κ)),
    renameFields id id fields = fields
  | [] => rfl
  | (_, ⟨type, args, _⟩) :: rest => by
    simp [renameFields, rename_id type, renameArguments_id args, renameFields_id rest]
theorem renameArguments_id : ∀ args : List (String × Argument (SchemaType κ)),
    renameArguments id id args = args
  | [] => rfl
  | (_, ⟨type, _, _⟩) :: rest => by
    simp [renameArguments, rename_id type, renameArguments_id rest]
theorem renameInputs_id : ∀ fields : List (String × InputField (SchemaType κ)),
    renameInputs id id fields = fields
  | [] => rfl
  | (_, ⟨type, _⟩) :: rest => by simp [renameInputs, rename_id type, renameInputs_id rest]
end

section
variable {key other : κ → μ} {name : String → String}

mutual
theorem rename_congr : ∀ t : SchemaType κ, (∀ k ∈ t.links, key k = other k) →
    t.rename key name = t.rename other name
  | scalar _, _ | named (.enum _ _), _ => by simp [rename]
  | link target, h => congrArg link (h target (by simp [links]))
  | list item, h => congrArg list (rename_congr item (by simpa [links] using h))
  | nonNull item, h => congrArg nonNull (rename_congr item (by simpa [links] using h))
  | named (.object own fields), h => by
    rw [rename, rename, renameFields_congr fields (by simpa [links] using h)]
  | named (.input own fields), h => by
    rw [rename, rename, renameInputs_congr fields (by simpa [links] using h)]
theorem renameFields_congr : ∀ fields : List (String × Field (SchemaType κ)),
    (∀ k ∈ linksOfFields fields, key k = other k) →
      renameFields key name fields = renameFields other name fields
  | [], _ => rfl
  | (_, ⟨type, args, _⟩) :: rest, h => by
    simp only [linksOfFields, List.mem_append] at h
    rw [renameFields, renameFields, rename_congr type fun k hk => h k (.inl hk),
      renameArguments_congr args fun k hk => h k (.inr (.inl hk)),
      renameFields_congr rest fun k hk => h k (.inr (.inr hk))]
theorem renameArguments_congr : ∀ args : List (String × Argument (SchemaType κ)),
    (∀ k ∈ linksOfArguments args, key k = other k) →
      renameArguments key name args = renameArguments other name args
  | [], _ => rfl
  | (_, ⟨type, _, _⟩) :: rest, h => by
    simp only [linksOfArguments, List.mem_append] at h
    rw [renameArguments, renameArguments, rename_congr type fun k hk => h k (.inl hk),
      renameArguments_congr rest fun k hk => h k (.inr hk)]
theorem renameInputs_congr : ∀ fields : List (String × InputField (SchemaType κ)),
    (∀ k ∈ linksOfInputs fields, key k = other k) →
      renameInputs key name fields = renameInputs other name fields
  | [], _ => rfl
  | (_, ⟨type, _⟩) :: rest, h => by
    simp only [linksOfInputs, List.mem_append] at h
    rw [renameInputs, renameInputs, rename_congr type fun k hk => h k (.inl hk),
      renameInputs_congr rest fun k hk => h k (.inr hk)]
end

end
end ContentSchema.SchemaType

namespace ContentSchema.Field
variable {κ μ ν : Type}

/-- A field of a renamed type, with renamed arguments. -/
def rename (key : κ → μ) (name : String → String) (f : Field (SchemaType κ)) :
    Field (SchemaType μ) :=
  ⟨f.type.rename key name, SchemaType.renameArguments key name f.args, f.resolver⟩

/-- The keys that a field and its arguments have links to. -/
def links (f : Field (SchemaType κ)) : List κ := f.type.links ++ SchemaType.linksOfArguments f.args

theorem rename_rename (key : κ → μ) (name : String → String) (further : μ → ν)
    (again : String → String) (f : Field (SchemaType κ)) :
    (f.rename key name).rename further again = f.rename (further ∘ key) (again ∘ name) := by
  simp only [rename, SchemaType.rename_rename, SchemaType.renameArguments_renameArguments]

theorem rename_id (f : Field (SchemaType κ)) : f.rename id id = f := by
  simp only [rename, SchemaType.rename_id, SchemaType.renameArguments_id]

theorem links_rename (key : κ → μ) (name : String → String) (f : Field (SchemaType κ)) :
    (f.rename key name).links = f.links.map key := by
  simp only [rename, links, SchemaType.links_rename, SchemaType.linksOfArguments_renameArguments,
    List.map_append]

theorem rename_congr {key other : κ → μ} (name : String → String) {f : Field (SchemaType κ)}
    (h : ∀ k ∈ f.links, key k = other k) : f.rename key name = f.rename other name := by
  simp only [links, List.mem_append] at h
  rw [rename, rename, SchemaType.rename_congr f.type fun k hk => h k (.inl hk),
    SchemaType.renameArguments_congr f.args fun k hk => h k (.inr hk)]

end ContentSchema.Field

namespace ContentSchema.SchemaType
variable {κ μ : Type}

theorem mem_linksOfFields {fields : List (String × Field (SchemaType κ))} {target : κ} :
    target ∈ linksOfFields fields ↔ ∃ key f, (key, f) ∈ fields ∧ target ∈ f.links := by
  induction fields with
  | nil => simp [linksOfFields]
  | cons field rest ih =>
    obtain ⟨k, own⟩ := field
    have first : target ∈ linksOfFields ((k, own) :: rest) ↔
        target ∈ own.links ∨ target ∈ linksOfFields rest := by
      rw [linksOfFields, Field.links, ← List.append_assoc, List.mem_append]
    rw [first, ih]
    constructor
    · rintro (here | ⟨key, f, found, inside⟩)
      · exact ⟨k, own, List.mem_cons_self, here⟩
      · exact ⟨key, f, List.mem_cons_of_mem _ found, inside⟩
    · rintro ⟨key, f, found, inside⟩
      rcases List.mem_cons.mp found with same | found
      · cases same
        exact .inl inside
      · exact .inr ⟨key, f, found, inside⟩

theorem renameFields_eq_map (key : κ → μ) (name : String → String)
    (fields : List (String × Field (SchemaType κ))) :
    renameFields key name fields = fields.map fun (k, f) => (k, f.rename key name) := by
  induction fields with
  | nil => rfl
  | cons field rest ih =>
    rw [renameFields, ih]
    rfl

end ContentSchema.SchemaType

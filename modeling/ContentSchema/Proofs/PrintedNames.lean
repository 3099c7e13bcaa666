import ContentSchema.Schema.Printer
import ContentSchema.Proofs.MappedLists
import Mathlib.Data.List.Perm.Basic

/-! The names in a printed schema. Its text is made of fragments, which tell where a field refers to
a definition and where a definition begins. -/
namespace ContentSchema

/-- A fragment of a printed schema. -/
inductive Fragment where
  /-- Keywords, punctuation, scalars, defaults, and the names of fields, arguments and members. -/
  | plain (text : String)
  /-- The name of a definition that a field or an argument refers to. -/
  | mention (name : String)
  /-- The name of a definition at the head of its block. -/
  | heading (name : String)

namespace Fragment

def text : Fragment → String
  | plain text => text
  | mention name => name
  | heading name => name

def mention? : Fragment → Option String
  | mention name => some name
  | _ => none

def heading? : Fragment → Option String
  | heading name => some name
  | _ => none

/-- The text that fragments make up. -/
def textOf (fs : List Fragment) : String := String.join (fs.map text)

def mentions (fs : List Fragment) : List String := fs.filterMap mention?

def headings (fs : List Fragment) : List String := fs.filterMap heading?

/-- Lines, or other parts, with the same plain text between them. -/
def separated (separator : String) (parts : List (List Fragment)) : List Fragment :=
  [plain separator].intercalate parts

@[simp] theorem textOf_nil : textOf [] = "" := rfl

@[simp] theorem textOf_cons (f : Fragment) (fs : List Fragment) :
    textOf (f :: fs) = f.text ++ textOf fs := String.join_cons

@[simp] theorem textOf_append (a b : List Fragment) : textOf (a ++ b) = textOf a ++ textOf b := by
  induction a with
  | nil => simp
  | cons f a ih => simp [ih, String.append_assoc]

section
variable (text name : String) (fs more : List Fragment)

@[simp] theorem mentions_nil : mentions [] = [] := rfl

@[simp] theorem mentions_plain : mentions (plain text :: fs) = mentions fs := rfl

@[simp] theorem mentions_heading : mentions (heading name :: fs) = mentions fs := rfl

@[simp] theorem mentions_append : mentions (fs ++ more) = mentions fs ++ mentions more :=
  List.filterMap_append

@[simp] theorem headings_nil : headings [] = [] := rfl

@[simp] theorem headings_plain : headings (plain text :: fs) = headings fs := rfl

@[simp] theorem headings_heading : headings (heading name :: fs) = name :: headings fs := rfl

@[simp] theorem headings_append : headings (fs ++ more) = headings fs ++ headings more :=
  List.filterMap_append

end

@[simp] theorem textOf_separated (separator : String) (parts : List (List Fragment)) :
    textOf (separated separator parts) = separator.intercalate (parts.map textOf) := by
  unfold separated
  induction parts with
  | nil => simp
  | cons part rest ih =>
    cases rest with
    | nil => simp
    | cons next rest =>
      rw [List.intercalate_cons_cons, textOf_append, ih]
      simp [String.intercalate_cons_cons, text]

private theorem filterMap_separated {look : Fragment → Option String} {separator : String}
    (none : look (plain separator) = none) (parts : List (List Fragment)) :
    (separated separator parts).filterMap look = parts.flatMap fun part => part.filterMap look := by
  unfold separated
  induction parts with
  | nil => simp
  | cons part rest ih =>
    cases rest with
    | nil => simp
    | cons next rest =>
      rw [List.intercalate_cons_cons, List.filterMap_append, ih]
      simp [none]

@[simp] theorem mentions_separated (separator : String) (parts : List (List Fragment)) :
    mentions (separated separator parts) = parts.flatMap mentions :=
  filterMap_separated rfl parts

@[simp] theorem headings_separated (separator : String) (parts : List (List Fragment)) :
    headings (separated separator parts) = parts.flatMap headings :=
  filterMap_separated rfl parts

end Fragment

namespace Graph
open Fragment
variable {κ : Type} [DecidableEq κ]

/-- The fragments of a type as it is referred to. -/
def referenceFragments (g : Graph κ) : SchemaType κ → List Fragment
  | .scalar s => [.plain s.name]
  | .list item => .plain "[" :: g.referenceFragments item ++ [.plain "]"]
  | .nonNull item => g.referenceFragments item ++ [.plain "!"]
  | .named d => [.mention d.name]
  | .link key => match g.get? key with
    | some d => [.mention d.name]
    | none => []

def outputFragments (g : Graph κ) (name : String) (field : Field (SchemaType κ)) : List Fragment :=
  let args := field.args.map fun (argName, arg) =>
    .plain (argName ++ ": ") :: g.referenceFragments arg.type
  let args := if args.isEmpty then [] else .plain "(" :: separated ", " args ++ [.plain ")"]
  .plain ("  " ++ name) :: args ++ .plain ": " :: g.referenceFragments field.type

def inputFragments (g : Graph κ) (name : String) (field : InputField (SchemaType κ)) :
    Except DefaultWithoutText (List Fragment) := do
  let line := .plain ("  " ++ name ++ ": ") :: g.referenceFragments field.type
  if field.default.isNull then return line
  else return line ++ [.plain " = ", .plain (← g.defaultText field.type field.default)]

def blockFragments (keyword name : String) (lines : List (List Fragment)) : List Fragment :=
  separated "\n" ([.plain (keyword ++ " "), .heading name, .plain " \x7b"] :: lines ++
    [[.plain "\x7d"]])

def definitionFragments (g : Graph κ) :
    Definition (SchemaType κ) → Except DefaultWithoutText (List Fragment)
  | .object name fields =>
    .ok (blockFragments "type" name (fields.map fun entry => g.outputFragments entry.1 entry.2))
  | .input name fields =>
    return blockFragments "input" name (← fields.mapM fun entry => g.inputFragments entry.1 entry.2)
  | .enum name values =>
    .ok (blockFragments "enum" name (values.map fun value => [.plain ("  " ++ value.1)]))

/-- The fragments of everything that the roots reach. -/
def fragments (g : Graph κ) (roots : List (SchemaType κ)) :
    Except DefaultWithoutText (List Fragment) := do
  return separated "\n\n" (← (g.collect roots).mapM g.definitionFragments)

section
variable {α β γ : Type}

private theorem flatMap_of_forall₂ {R : α → β → Prop} {shown : α → List γ} {look : β → List γ}
    {xs : List α} {ys : List β} (h : List.Forall₂ R xs ys)
    (each : ∀ x y, R x y → look y = shown x) : ys.flatMap look = xs.flatMap shown := by
  induction h with
  | nil => rfl
  | cons hxy _ ih => rw [List.flatMap_cons, List.flatMap_cons, each _ _ hxy, ih]

private theorem perm_flatMap_of_forall₂ {R : α → β → Prop} {shown : α → List γ}
    {look : β → List γ} {xs : List α} {ys : List β} (h : List.Forall₂ R xs ys)
    (each : ∀ x y, R x y → (look y).Perm (shown x)) :
    (ys.flatMap look).Perm (xs.flatMap shown) := by
  induction h with
  | nil => exact .refl _
  | cons hxy _ ih => exact (each _ _ hxy).append ih

end

@[simp] theorem textOf_referenceFragments (g : Graph κ) (t : SchemaType κ) :
    textOf (g.referenceFragments t) = g.reference t := by
  induction t using reference.induct with
  | case1 s => simp [referenceFragments, reference, Fragment.text]
  | case2 item ih => simp [referenceFragments, reference, Fragment.text, ih, String.append_assoc]
  | case3 item ih => simp [referenceFragments, reference, Fragment.text, ih]
  | case4 d => simp [referenceFragments, reference, Fragment.text]
  | case5 key =>
    simp only [referenceFragments, reference, nameOf]
    cases g.get? key <;> simp [Fragment.text]

@[simp] theorem textOf_outputFragments (g : Graph κ) (name : String)
    (field : Field (SchemaType κ)) :
    textOf (g.outputFragments name field) = g.outputLine name field := by
  obtain ⟨type, args, resolver⟩ := field
  cases args with
  | nil => simp [outputFragments, outputLine, Fragment.text, String.append_assoc]
  | cons arg args =>
    simp [outputFragments, outputLine, Fragment.text, String.append_assoc, Function.comp_def]
    rw [← String.append_assoc]
    rfl

theorem inputLine_eq (g : Graph κ) (name : String) (field : InputField (SchemaType κ)) :
    g.inputLine name field = (g.inputFragments name field).map textOf := by
  unfold inputLine inputFragments
  split
  · simp [pure, Except.pure, Except.map, Fragment.text]
  · cases g.defaultText field.type field.default <;>
      simp [bind, Except.bind, pure, Except.pure, Except.map, Fragment.text, String.append_assoc]

@[simp] theorem textOf_blockFragments (keyword name : String) (lines : List (List Fragment)) :
    textOf (blockFragments keyword name lines) = block keyword name (lines.map textOf) := by
  simp [blockFragments, block, Fragment.text, String.append_assoc]

theorem definitionText_eq (g : Graph κ) (d : Definition (SchemaType κ)) :
    g.definitionText d = (g.definitionFragments d).map textOf := by
  cases d with
  | object name fields =>
    simp [definitionText, definitionFragments, Except.map, Function.comp_def]
  | input name fields =>
    simp only [definitionText, definitionFragments, inputLine_eq, mapM_map]
    cases fields.mapM fun entry => g.inputFragments entry.1 entry.2 <;>
      simp [bind, Except.bind, pure, Except.pure, Except.map]
  | enum name values =>
    simp [definitionText, definitionFragments, Except.map, Function.comp_def, Fragment.text]

/-- The fragments of a schema make up its text. -/
theorem text_eq (g : Graph κ) (roots : List (SchemaType κ)) :
    g.text roots = (g.fragments roots).map textOf := by
  have blocks : g.definitionText = fun d => (g.definitionFragments d).map textOf :=
    funext g.definitionText_eq
  unfold text fragments
  rw [blocks, mapM_map]
  cases (g.collect roots).mapM g.definitionFragments <;>
    simp [bind, Except.bind, pure, Except.pure, Except.map]

/-- The name of the definition inside a type, if there is one. -/
def innerNames (g : Graph κ) (t : SchemaType κ) : List String :=
  ((g.definition? t).map Definition.name).toList

section
variable {g : Graph κ}

theorem mem_innerNames {t : SchemaType κ} {name : String} :
    name ∈ g.innerNames t ↔ ∃ d, g.definition? t = some d ∧ d.name = name := by
  unfold innerNames
  cases g.definition? t <;> simp [eq_comm]

/-- A type mentions the definition inside its wrappers, and heads no block. -/
private theorem names_referenceFragments (t : SchemaType κ) :
    mentions (g.referenceFragments t) = g.innerNames t ∧
      headings (g.referenceFragments t) = [] := by
  induction t using reference.induct with
  | case1 s => exact ⟨rfl, rfl⟩
  | case2 item ih | case3 item ih => simpa [referenceFragments, innerNames] using ih
  | case4 d => exact ⟨rfl, rfl⟩
  | case5 key =>
    simp only [referenceFragments, innerNames, definition?, SchemaType.inner]
    cases g.get? key <;> exact ⟨rfl, rfl⟩

@[simp] theorem mentions_referenceFragments (t : SchemaType κ) :
    mentions (g.referenceFragments t) = g.innerNames t := (names_referenceFragments t).1

@[simp] theorem headings_referenceFragments (t : SchemaType κ) :
    headings (g.referenceFragments t) = [] := (names_referenceFragments t).2

/-- In print the arguments of a field stand before its type. -/
theorem mentions_outputFragments (name : String) (field : Field (SchemaType κ)) :
    (mentions (g.outputFragments name field)).Perm
      ((Definition.fieldTypes field).flatMap g.innerNames) := by
  obtain ⟨type, args, resolver⟩ := field
  cases args with
  | nil => simp [outputFragments, Definition.fieldTypes]
  | cons arg args =>
    have printed : mentions (g.outputFragments name ⟨type, arg :: args, resolver⟩) =
        ((arg :: args).flatMap fun arg => g.innerNames arg.2.type) ++ g.innerNames type := by
      simp [outputFragments, List.flatMap_map]
    have types : (Definition.fieldTypes ⟨type, arg :: args, resolver⟩).flatMap g.innerNames =
        g.innerNames type ++ (arg :: args).flatMap fun arg => g.innerNames arg.2.type := by
      simp [Definition.fieldTypes, List.flatMap_map]
    rw [printed, types]
    exact List.perm_append_comm

@[simp] theorem headings_outputFragments (name : String) (field : Field (SchemaType κ)) :
    headings (g.outputFragments name field) = [] := by
  obtain ⟨type, args, resolver⟩ := field
  cases args with
  | nil => simp [outputFragments]
  | cons arg args => simp [outputFragments, List.flatMap_map]

theorem names_of_inputFragments {name : String} {field : InputField (SchemaType κ)}
    {fs : List Fragment} (h : g.inputFragments name field = .ok fs) :
    mentions fs = g.innerNames field.type ∧ headings fs = [] := by
  unfold inputFragments at h
  split at h
  · cases h
    simp
  · cases hdefault : g.defaultText field.type field.default with
    | error e =>
      rw [hdefault] at h
      cases h
    | ok text =>
      rw [hdefault] at h
      cases h
      simp

@[simp] theorem mentions_blockFragments (keyword name : String) (lines : List (List Fragment)) :
    mentions (blockFragments keyword name lines) = lines.flatMap mentions := by
  simp [blockFragments]

@[simp] theorem headings_blockFragments (keyword name : String) (lines : List (List Fragment)) :
    headings (blockFragments keyword name lines) = name :: lines.flatMap headings := by
  simp [blockFragments]

/-- A block has one heading, and mentions what the fields of its definition lead to. -/
theorem names_of_definitionFragments {d : Definition (SchemaType κ)} {fs : List Fragment}
    (h : g.definitionFragments d = .ok fs) :
    (mentions fs).Perm (d.children.flatMap g.innerNames) ∧ headings fs = [d.name] := by
  cases d with
  | object name fields =>
    cases h
    constructor
    · rw [mentions_blockFragments, List.flatMap_map, Definition.children, List.flatMap_assoc]
      exact List.Perm.flatMap_left _ fun field _ => mentions_outputFragments field.1 field.2
    · simp [List.flatMap_map, Definition.name]
  | input name fields =>
    rw [definitionFragments] at h
    cases hlines : fields.mapM fun entry => g.inputFragments entry.1 entry.2 with
    | error e =>
      rw [hlines] at h
      cases h
    | ok lines =>
      rw [hlines] at h
      cases h
      have written := mapM_eq_ok_iff.mp hlines
      have mentioned := flatMap_of_forall₂ written fun _ _ h => (names_of_inputFragments h).1
      have headed := flatMap_of_forall₂ written fun _ _ h => (names_of_inputFragments h).2
      constructor
      · rw [mentions_blockFragments, mentioned, Definition.children, List.flatMap_map]
      · rw [headings_blockFragments, headed]
        simp [Definition.name]
  | enum name values =>
    cases h
    constructor
    · simp [Definition.children, List.flatMap_map]
    · simp [Definition.name, List.flatMap_map]

/-- The headings are the names of what is collected, in order; what is mentioned are the definitions
that the collected ones refer to, each as often as they do. -/
theorem names_of_fragments {roots : List (SchemaType κ)} {fs : List Fragment}
    (h : g.fragments roots = .ok fs) :
    (mentions fs).Perm ((g.collect roots).flatMap fun d => d.children.flatMap g.innerNames) ∧
      headings fs = (g.collect roots).map Definition.name := by
  unfold fragments at h
  cases hblocks : (g.collect roots).mapM g.definitionFragments with
  | error e =>
    rw [hblocks] at h
    cases h
  | ok blocks =>
    rw [hblocks] at h
    cases h
    have written := mapM_eq_ok_iff.mp hblocks
    constructor
    · rw [mentions_separated]
      exact perm_flatMap_of_forall₂ written fun _ _ h => (names_of_definitionFragments h).1
    · rw [headings_separated, List.map_eq_flatMap]
      exact flatMap_of_forall₂ written fun _ _ h => (names_of_definitionFragments h).2

end

end Graph
end ContentSchema

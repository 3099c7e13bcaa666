import ContentSchema.Schema.Type

/-! Definitions that refer to each other, and the definitions that types reach. -/
namespace ContentSchema

/-- The definitions that links lead to. -/
abbrev Graph (κ : Type) := List (κ × Definition (SchemaType κ))

namespace SchemaType
variable {κ : Type}

/-- The number of parts of some types. -/
def sizeAll : List (SchemaType κ) → Nat
  | [] => 0
  | t :: rest => t.size + sizeAll rest

theorem sizeAll_append (a b : List (SchemaType κ)) : sizeAll (a ++ b) = sizeAll a + sizeAll b := by
  induction a with
  | nil => simp [sizeAll]
  | cons t a ih => simp only [List.cons_append, sizeAll, ih]; omega

theorem sizeArguments_eq (args : List (String × Argument (SchemaType κ))) :
    sizeArguments args = sizeAll (args.map fun arg => arg.2.type) := by
  induction args with
  | nil => rfl
  | cons arg rest ih => simp only [sizeArguments, List.map_cons, sizeAll, ih]

theorem sizeFields_eq (fields : List (String × Field (SchemaType κ))) :
    sizeFields fields = sizeAll (fields.flatMap fun field => Definition.fieldTypes field.2) := by
  induction fields with
  | nil => rfl
  | cons field rest ih =>
    simp only [sizeFields, ih, sizeArguments_eq, List.flatMap_cons, Definition.fieldTypes,
      sizeAll_append, sizeAll]

theorem sizeInputs_eq (fields : List (String × InputField (SchemaType κ))) :
    sizeInputs fields = sizeAll (fields.map fun field => field.2.type) := by
  induction fields with
  | nil => rfl
  | cons field rest ih => simp only [sizeInputs, List.map_cons, sizeAll, ih]

theorem size_named (d : Definition (SchemaType κ)) : (named d).size = sizeAll d.children + 1 := by
  cases d with
  | object name fields => simp only [size, Definition.children, sizeFields_eq]
  | input name fields => simp only [size, Definition.children, sizeInputs_eq]
  | enum name values => rfl

end SchemaType

namespace Graph
variable {κ : Type}

/-- How many definitions of the graph have a name that is not among the seen ones. -/
def unseen (g : Graph κ) (seen : List String) : Nat :=
  g.countP fun entry => !seen.contains entry.2.name

theorem unseen_cons_le (g : Graph κ) (seen : List String) (name : String) :
    g.unseen (name :: seen) ≤ g.unseen seen := by
  unfold unseen
  apply List.countP_mono_left
  intro entry _ h
  simp_all

variable [DecidableEq κ]

def get? (g : Graph κ) (key : κ) : Option (Definition (SchemaType κ)) := g.lookup key

/-- The name of the definition that a key leads to. -/
def nameOf (g : Graph κ) (key : κ) : String :=
  match g.get? key with
  | some d => d.name
  | none => ""

/-- A type as it is referred to: lists in brackets, non-null types with an exclamation mark. -/
def reference (g : Graph κ) : SchemaType κ → String
  | .scalar s => s.name
  | .list item => "[" ++ g.reference item ++ "]"
  | .nonNull item => g.reference item ++ "!"
  | .named d => d.name
  | .link key => g.nameOf key

/-- The definition of a type once its wrappers are removed. Scalars have none. -/
def definition? (g : Graph κ) (t : SchemaType κ) : Option (Definition (SchemaType κ)) :=
  match t.inner with
  | .named d => some d
  | .link key => g.get? key
  | _ => none

@[simp] theorem definition?_list (g : Graph κ) (item : SchemaType κ) :
    g.definition? (.list item) = g.definition? item := rfl

@[simp] theorem definition?_nonNull (g : Graph κ) (item : SchemaType κ) :
    g.definition? (.nonNull item) = g.definition? item := rfl

theorem unseen_cons_lt {g : Graph κ} {seen : List String} {key : κ}
    {d : Definition (SchemaType κ)} (found : g.get? key = some d) (new : d.name ∉ seen) :
    g.unseen (d.name :: seen) < g.unseen seen := by
  induction g with
  | nil => simp [get?] at found
  | cons entry rest ih =>
    obtain ⟨k, e⟩ := entry
    unfold get? at found ih
    rw [List.lookup_cons] at found
    have first := unseen_cons_le [(k, e)] seen d.name
    have others := unseen_cons_le rest seen d.name
    unfold unseen at first others ih ⊢
    simp only [List.countP_cons, List.countP_nil, Nat.zero_add] at first ⊢
    by_cases h : key == k
    · simp only [h] at found
      have same : e = d := Option.some.inj found
      have now : (!(d.name :: seen).contains e.name) = false := by rw [same]; simp
      have before : (!seen.contains e.name) = true := by rw [same]; simpa using new
      simp only [now, before, if_true, Bool.false_eq_true, if_false]
      omega
    · simp only [h] at found
      have lt := ih found
      omega

/-- Visit the types of a stack from its top. A definition is listed when its name is met for the
first time, and its children are then visited before the rest. -/
def collectFrom (g : Graph κ) (seen : List String) (stack : List (SchemaType κ)) :
    List (Definition (SchemaType κ)) :=
  match stack with
  | [] => []
  | .scalar _ :: rest => g.collectFrom seen rest
  | .list item :: rest => g.collectFrom seen (item :: rest)
  | .nonNull item :: rest => g.collectFrom seen (item :: rest)
  | .named d :: rest =>
    if d.name ∈ seen then g.collectFrom seen rest
    else d :: g.collectFrom (d.name :: seen) (d.children ++ rest)
  | .link key :: rest =>
    match _found : g.get? key with
    | none => g.collectFrom seen rest
    | some d =>
      if _h : d.name ∈ seen then g.collectFrom seen rest
      else d :: g.collectFrom (d.name :: seen) (d.children ++ rest)
termination_by (g.unseen seen, SchemaType.sizeAll stack)
decreasing_by
  · exact Prod.Lex.right _ (by simp [SchemaType.sizeAll, SchemaType.size])
  · exact Prod.Lex.right _ (by simp [SchemaType.sizeAll, SchemaType.size])
  · exact Prod.Lex.right _ (by simp [SchemaType.sizeAll, SchemaType.size])
  · exact Prod.Lex.right _ (by simp [SchemaType.sizeAll, SchemaType.size_named])
  · rcases Nat.lt_or_eq_of_le (g.unseen_cons_le seen d.name) with lt | eq
    · exact Prod.Lex.left _ _ lt
    · rw [eq]
      refine Prod.Lex.right _ ?_
      simp only [SchemaType.sizeAll, SchemaType.sizeAll_append, SchemaType.size_named]
      omega
  · exact Prod.Lex.right _ (by simp [SchemaType.sizeAll, SchemaType.size])
  · exact Prod.Lex.right _ (by simp [SchemaType.sizeAll, SchemaType.size])
  · exact Prod.Lex.left _ _ (unseen_cons_lt (by assumption) (by assumption))

/-- Every object, input and enumeration type that the roots reach, in the order of the first visit;
each name once. -/
def collect (g : Graph κ) (roots : List (SchemaType κ)) : List (Definition (SchemaType κ)) :=
  g.collectFrom [] roots

end Graph
end ContentSchema

import ContentSchema.Proofs.FilterKeys
import ContentSchema.Proofs.NameRequests
import ContentSchema.Proofs.OutputPositions

/-! The names of sort inputs. Nobody asks the namer for them. They are told apart from the names
that the namer gives away by their last characters, but from those of object types only by
accident. -/
namespace ContentSchema

namespace TypeName

theorem words_append {e : List Char} (named : ∀ c ∈ e, isNameChar c = true) (some : e ≠ [])
    (cs : List Char) : ∃ before w, words (cs ++ e) = before ++ [w ++ e] := by
  have pieces : ∃ before w, (cs ++ e).splitOnP (fun c => !isNameChar c) = before ++ [w ++ e] := by
    induction cs with
    | nil => exact ⟨[], [], List.splitOnP_eq_singleton fun c hc => by simp [named c hc]⟩
    | cons c cs ih =>
      obtain ⟨before, w, heq⟩ := ih
      rw [List.cons_append, List.splitOnP_cons_eq_if_modifyHead, heq]
      split
      · exact ⟨[] :: before, w, rfl⟩
      · cases before with
        | nil => exact ⟨[], c :: w, rfl⟩
        | cons first before => exact ⟨(c :: first) :: before, w, rfl⟩
  obtain ⟨before, w, heq⟩ := pieces
  refine ⟨before.filter fun v => !v.isEmpty, w, ?_⟩
  have kept : (w ++ e).isEmpty = false := by simp [some]
  rw [words, heq, List.filter_append, List.filter_cons, kept]
  rfl

/-- A name that is made of a text ends as the text does, but for the first character of a word. -/
theorem getLast?_ofChars {first : Char} {rest : List Char}
    (named : ∀ c ∈ first :: rest, isNameChar c = true) (some : rest ≠ []) (cs : List Char) :
    (ofChars (cs ++ first :: rest)).getLast? = rest.getLast? := by
  obtain ⟨before, w, heq⟩ := words_append named (List.cons_ne_nil _ _) cs
  have last : ∃ front, Text.capitalised (w ++ first :: rest) = front ++ rest := by
    cases w with
    | nil => exact ⟨Text.upper first, rfl⟩
    | cons c w => exact ⟨Text.upper c ++ (w ++ [first]), by simp [Text.capitalised]⟩
  obtain ⟨front, hfront⟩ := last
  have name : ∃ front, (words (cs ++ first :: rest)).flatMap Text.capitalised = front ++ rest :=
    ⟨before.flatMap Text.capitalised ++ front, by
      rw [heq, List.flatMap_append, List.flatMap_singleton, hfront, List.append_assoc]⟩
  obtain ⟨front, hname⟩ := name
  have ends (more : List Char) : (more ++ (front ++ rest)).getLast? = rest.getLast? := by
    rw [← List.append_assoc, List.getLast?_append_of_ne_nil _ some]
  rw [ofChars, hname]
  cases chars : front ++ rest with
  | nil => exact absurd (List.append_eq_nil_iff.mp chars).2 some
  | cons c more =>
    rw [← ends [], List.nil_append, chars]
    simp only [guardDigit]
    split <;> simp

end TypeName

/-- The last character of a text. -/
def Text.last? (s : String) : Option Char := s.toList.getLast?

theorem Text.last?_append (s : String) {t : String} (some : t ≠ "") :
    Text.last? (s ++ t) = Text.last? t := by
  rw [Text.last?, String.toList_append, List.getLast?_append_of_ne_nil, Text.last?]
  simpa using some

theorem Text.append_ne_append (s s' : String) {t t' : String} (some : t ≠ "") (some' : t' ≠ "")
    (apart : Text.last? t ≠ Text.last? t') : s ++ t ≠ s' ++ t' := by
  intro same
  have last := congrArg Text.last? same
  rw [Text.last?_append s some, Text.last?_append s' some'] at last
  exact apart last

theorem TypeName.last?_ofSelector (s : String) {e : String} (long : 2 ≤ e.toList.length)
    (named : e.toList.all isNameChar = true) :
    Text.last? (ofSelector (s ++ e)) = Text.last? e := by
  rw [List.all_eq_true] at named
  rw [Text.last?, ofSelector, String.toList_ofList, String.toList_append, Text.last?]
  cases chars : e.toList with
  | nil => simp [chars] at long
  | cons first rest =>
    rw [chars] at named
    have some : rest ≠ [] := by
      rintro rfl
      simp [chars] at long
    rw [getLast?_ofChars named some, List.getLast?_cons_of_ne_nil some]

theorem Namer.isDigit_of_last?_numbered {base : String} {k : Nat} {c : Char}
    (h : Text.last? (Namer.numbered base k) = some c) : c.isDigit = true := by
  have digits : (toString k).toList = Nat.toDigits 10 k := by
    rw [Nat.toString_eq_repr, Nat.toList_repr]
  have some : toString k ≠ "" := by
    intro none
    rw [none] at digits
    exact Nat.toDigits_ne_nil digits.symm
  rw [Namer.numbered, Text.last?_append _ some, Text.last?, digits] at h
  exact Nat.isDigit_of_mem_toDigits (by decide) (by decide) (List.mem_of_getLast? h)

namespace FilterFields

/-- The names that belong to the sort input of a record type. -/
def sortNames (typeName : String) : List String :=
  [Text.smallFirst typeName ++ "SortBy", typeName ++ "SortByFieldsEnum",
    Text.smallFirst typeName ++ "SortOrderValues"]

/-- The names of a sort input and of the enumerations that its fields choose from. -/
def generatedNames (f : FilterField) : List String :=
  match f.type with
  | .named (.input name fields) => name :: fields.filterMap fun (_, g) => match g.type.inner with
    | .named (.enum enumName _) => some enumName
    | _ => none
  | _ => []

theorem generatedNames_sortField {records : List Record} {typeName : String} {sort : FilterField}
    (h : sortField records typeName = some sort) : generatedNames sort = sortNames typeName := by
  simp only [sortField] at h
  split at h
  · cases h
  · cases h
    rfl

/-- The names of two sort inputs are distinct unless their types differ in nothing but a capital. -/
theorem nodup_sortNames_iff (typeName other : String) :
    (sortNames typeName ++ sortNames other).Nodup ↔
      Text.smallFirst typeName ≠ Text.smallFirst other := by
  have inputEnum (s t : String) : s ++ "SortBy" ≠ t ++ "SortByFieldsEnum" :=
    Text.append_ne_append s t (by decide) (by decide) (by decide)
  have inputOrder (s t : String) : s ++ "SortBy" ≠ t ++ "SortOrderValues" :=
    Text.append_ne_append s t (by decide) (by decide) (by decide)
  have enumOrder (s t : String) : s ++ "SortByFieldsEnum" ≠ t ++ "SortOrderValues" :=
    Text.append_ne_append s t (by decide) (by decide) (by decide)
  have different (apart : Text.smallFirst typeName ≠ Text.smallFirst other) : typeName ≠ other :=
    fun same => apart (congrArg Text.smallFirst same)
  simp only [sortNames, List.cons_append, List.nil_append, List.nodup_cons, List.mem_cons,
    List.not_mem_nil, or_false, not_or, String.append_left_inj, inputEnum, inputOrder, enumOrder,
    (inputEnum _ _).symm, (inputOrder _ _).symm, (enumOrder _ _).symm, not_false_eq_true, true_and,
    and_true, List.nodup_nil]
  exact ⟨fun h => h.1, fun apart => ⟨apart, different apart, apart⟩⟩

/-- Whether a name ends like one that belongs to a sort input. -/
def endsLikeSort (name : String) : Bool :=
  match Text.last? name with
  | some c => ['y', 'm', 's'].contains c
  | none => false

theorem endsLikeSort_of_mem {typeName name : String} (h : name ∈ sortNames typeName) :
    endsLikeSort name = true := by
  rcases List.mem_cons.mp h with rfl | h
  · rw [endsLikeSort, Text.last?_append _ (by decide)]
    decide
  · rcases List.mem_pair.mp h with rfl | rfl
    all_goals
      rw [endsLikeSort, Text.last?_append _ (by decide)]
      decide

theorem not_endsLikeSort_numbered (base : String) (k : Nat) :
    endsLikeSort (Namer.numbered base k) = false := by
  unfold endsLikeSort
  cases last : Text.last? (Namer.numbered base k) with
  | none => rfl
  | some c =>
    have digit := Namer.isDigit_of_last?_numbered last
    rw [← Bool.not_eq_true, List.contains_iff_mem]
    intro h
    rcases List.mem_cons.mp h with rfl | h
    · cases digit
    · rcases List.mem_pair.mp h with rfl | rfl <;> cases digit

theorem not_endsLikeSort_ending : ∀ ending ∈ endings, endsLikeSort ending = false := by decide

theorem not_endsLikeSort_append (s : String) {ending : String} (known : ending ∈ endings) :
    endsLikeSort (s ++ ending) = false := by
  have some : ending ≠ "" := by
    rintro rfl
    revert known
    decide
  rw [endsLikeSort, Text.last?_append s some]
  exact not_endsLikeSort_ending ending known

theorem not_endsLikeSort_ofSelector (s : String) {ending : String} (known : ending ∈ endings) :
    endsLikeSort (TypeName.ofSelector (s ++ ending)) = false := by
  have written : ∀ e ∈ endings,
      2 ≤ e.toList.length ∧ e.toList.all TypeName.isNameChar = true := by
    decide
  obtain ⟨long, named⟩ := written ending known
  rw [endsLikeSort, TypeName.last?_ofSelector s long named]
  exact not_endsLikeSort_ending ending known

/-- Whatever is asked, no filter input gets a name that ends like one of a sort input. -/
theorem not_endsLikeSort_of_reply {requests : List Namer.Request}
    (asked : ∀ s base, .nameFor s (some base) ∈ requests → IsRequest (.nameFor s (some base)))
    {path ending name : String} (known : ending ∈ endings)
    (given : (path ++ ":" ++ ending, name) ∈ Namer.replies requests) :
    endsLikeSort name = false := by
  rcases Namer.reply_cases given with rfl | ⟨base, request, rfl⟩ | ⟨base, k, rfl⟩
  · exact not_endsLikeSort_append _ known
  · cases base with
    | none => exact not_endsLikeSort_ofSelector _ known
    | some base =>
      obtain ⟨_, stem, own, hown, heq⟩ := asked _ base request
      have made := Option.some.inj (Namer.Request.nameFor.inj heq).2
      rw [Option.getD_some, made]
      exact not_endsLikeSort_ofSelector stem hown
  · exact not_endsLikeSort_numbered base k

/-- The names of the sort inputs of two record types are distinct exactly when the type names do not
differ in a first capital alone. In a context in which some names are reserved from the start, and
whatever is done there, no filter input gets one of them; no object type gets one exactly when every
first request for an object type is spared them, by what was reserved before it. -/
theorem sortNames_distinct_iff (b : Build) (reserved : List String) (steps : List NamingStep)
    {records others : List Record} {typeName other : String} {sort otherSort : FilterField}
    (sorted : sortField records typeName = some sort)
    (otherSorted : sortField others other = some otherSort) :
    let names := generatedNames sort ++ generatedNames otherSort
    let context := b.setNamer (reserved.foldl Namer.reserve .empty)
    let requests := reserved.map .reserve ++ context.requestsOfAll steps
    (context.performAll steps).pass.namer = Namer.served requests ∧
      (names.Nodup ↔ Text.smallFirst typeName ≠ Text.smallFirst other) ∧
      (∀ path, ∀ ending ∈ endings, ∀ name,
        (path ++ ":" ++ ending, name) ∈ Namer.replies requests → name ∉ names) ∧
      ((∀ selector name, (selector, name) ∈ Namer.replies requests → name ∉ names) ↔
        ∀ before selector rest, requests = before ++ .nameFor selector none :: rest →
          ¬ Namer.Asked before selector → Namer.Spares names before selector) := by
  intro names context requests
  have started : reserved.foldl Namer.reserve .empty = Namer.served (reserved.map .reserve) := by
    rw [Namer.served, List.foldl_map]
    rfl
  have named : names = sortNames typeName ++ sortNames other := by
    simp only [names, generatedNames_sortField sorted, generatedNames_sortField otherSorted]
  have ends (name : String) (h : name ∈ names) : endsLikeSort name = true := by
    rw [named] at h
    exact (List.mem_append.mp h).elim endsLikeSort_of_mem endsLikeSort_of_mem
  have other {name : String} (h : endsLikeSort name = false) : name ∉ names :=
    fun inside => Bool.false_ne_true (h.symm.trans (ends name inside))
  have asked (s base : String) (h : .nameFor s (some base) ∈ requests) :
      IsRequest (.nameFor s (some base)) := by
    rcases List.mem_append.mp h with h | h
    · obtain ⟨_, _, heq⟩ := List.mem_map.mp h
      cases heq
    · exact context.isRequest_of_mem_requestsOfAll h
  refine ⟨?served, ?distinct, fun path ending known name given => ?filters, ?objects⟩
  case served =>
    have all : Namer.served requests =
        (Namer.served (reserved.map .reserve)).serveAll (context.requestsOfAll steps) :=
      List.foldl_append
    rw [all, ← started]
    exact context.namer_performAll steps
  case distinct =>
    rw [named]
    exact nodup_sortNames_iff _ _
  case filters => exact other (not_endsLikeSort_of_reply asked known given)
  case objects =>
    refine Namer.replies_avoid_iff (fun base k => other (not_endsLikeSort_numbered base k)) ?_
    intro s base h
    obtain ⟨path, stem, ending, known, heq⟩ := asked s base h
    obtain ⟨rfl, made⟩ := Namer.Request.nameFor.inj heq
    rw [Option.some.inj made]
    exact ⟨other (not_endsLikeSort_append _ known), other (not_endsLikeSort_ofSelector stem known)⟩

end FilterFields

private def reviewed : Record :=
  [("type", .text "Post"), ("seo", .mapping [("length", .int 60)])]

private theorem ofRecords_reviewed : Example.ofRecords [reviewed] = reviewed := by
  have inner : Example.ofRecords [[("length", .int 60)]] = [("length", .int 60)] :=
    Example.ofRecords_singleton (by decide)
      (List.forall_mem_singleton.mpr (Example.merge_leaf rfl _))
  refine Example.ofRecords_singleton (by decide) ?_
  simp only [reviewed, List.forall_mem_cons]
  exact ⟨Example.merge_leaf rfl _, Example.merge_singleton_mapping nofun inner, nofun⟩

private theorem sortable_reviewed : (SortFields.ofRecords [reviewed]).isEmpty = false := by
  rw [SortFields.ofRecords, ofRecords_reviewed]
  decide +kernel

/-- Posts and authors can be sorted in one context, in which an object inside a post has a name as
well. -/
theorem sortNames_distinct_posts :
    let steps : List NamingStep := [.recordType ([reviewed].map Value.mapping)]
    let b := Build.start .empty .empty ⟨⟨2020, 1, 10⟩, 0, 0, 0, 0, 0⟩
    b.requestsOfAll steps = [.reserve "Post", .nameFor "Post.seo" none] ∧
      ∃ sort other, FilterFields.sortField [reviewed] "Post" = some sort ∧
        FilterFields.sortField [reviewed] "Author" = some other ∧
        (FilterFields.generatedNames sort ++ FilterFields.generatedNames other).Nodup ∧
        ∀ selector name, (selector, name) ∈ Namer.replies (b.requestsOfAll steps) →
          name ∉ FilterFields.generatedNames sort ++ FilterFields.generatedNames other := by
  intro steps b
  have asked : b.requestsOfAll steps = [.reserve "Post", .nameFor "Post.seo" none] := by
    simp only [steps, Build.requestsOfAll, Build.requests, typeNameOf_mapping, Build.outputRequests,
      Example.ofEntries_mapping, Option.getD_none, ofRecords_reviewed]
    decide +kernel
  obtain ⟨_, sorted⟩ := FilterFields.exists_sortField "Post" sortable_reviewed
  obtain ⟨_, otherSorted⟩ := FilterFields.exists_sortField "Author" sortable_reviewed
  obtain ⟨_, distinct, _, objects⟩ :=
    FilterFields.sortNames_distinct_iff b [] steps sorted otherSorted
  refine ⟨asked, _, _, sorted, otherSorted, distinct.mpr (by decide), objects.mpr ?_⟩
  intro before selector rest parts _
  have here : .nameFor selector none ∈ b.requestsOfAll steps := by
    have inside : .nameFor selector none ∈ before ++ .nameFor selector none :: rest :=
      List.mem_append_right _ List.mem_cons_self
    rw [← parts] at inside
    exact inside
  rw [asked] at here
  obtain rfl : selector = "Post.seo" := by simpa using here
  rw [FilterFields.generatedNames_sortField sorted,
    FilterFields.generatedNames_sortField otherSorted]
  exact ⟨fun _ => by decide, fun _ inside => absurd inside (by decide +kernel)⟩

private def enumerated : Record :=
  [("type", .text "Post"), ("sortByFieldsEnum", .mapping [("size", .int 1)])]

/-- The sort inputs of two types of records, one of them written with a capital. And a post with an
object under a key that reads like an enumeration, whose type has the name of that enumeration. -/
theorem sortNames_shared :
    (∃ sort other, FilterFields.sortField [reviewed] "Post" = some sort ∧
      FilterFields.sortField [reviewed] "post" = some other ∧
      FilterFields.generatedNames sort =
        ["postSortBy", "PostSortByFieldsEnum", "postSortOrderValues"] ∧
      FilterFields.generatedNames other =
        ["postSortBy", "postSortByFieldsEnum", "postSortOrderValues"]) ∧
    ∃ fields, ((Build.start .empty .empty ⟨⟨2020, 1, 10⟩, 0, 0, 0, 0, 0⟩).outputFields
        ([[("type", .text "Post")]].map Value.mapping) none (some enumerated)).1 = .ok fields ∧
      OutputFields.ObjectBelow fields [.key "sortByFieldsEnum"] "PostSortByFieldsEnum" := by
  constructor
  · obtain ⟨_, sorted⟩ := FilterFields.exists_sortField "Post" sortable_reviewed
    obtain ⟨_, otherSorted⟩ := FilterFields.exists_sortField "post" sortable_reviewed
    refine ⟨_, _, sorted, otherSorted, ?_, ?_⟩
    · rw [FilterFields.generatedNames_sortField sorted]
      decide
    · rw [FilterFields.generatedNames_sortField otherSorted]
      decide
  · refine ⟨[("sortByFieldsEnum", OutputField.plain (.named (.object "PostSortByFieldsEnum"
      [("size", OutputField.plain (.scalar .int))])))], ?_, ?_⟩
    · rw [Build.outputFields_mapping]
      rfl
    · exact ⟨_, _, _, rfl, rfl, .here⟩

end ContentSchema

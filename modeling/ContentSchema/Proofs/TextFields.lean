import ContentSchema.Proofs.BrokenHosts
import ContentSchema.Proofs.FieldNames

/-! Texts as examples. A text has a text field or a link to its file, unless nobody can tell whether
it is the path of one or a link has taken the name of the field. -/
namespace ContentSchema

namespace OutputFields

/-- The field of a text that is no link. Dates can be reformatted. -/
def textField (key s : String) : OutputField :=
  if Calendar.isIsoDate s then ⟨.scalar .string, dateArguments, some (.date key)⟩
  else .plain (.scalar .string)

theorem scalarField?_text (key s : String) :
    scalarField? key (.text s) = some (textField key s) := by
  cases date : Calendar.isIsoDate s <;>
    simp [scalarField?, textField, Value.kind, date, Scalar.ofKind?]

theorem textField_resolver (key s : String) :
    (textField key s).resolver = none ∨ (textField key s).resolver = some (.date key) := by
  unfold textField
  split
  · exact Or.inr rfl
  · exact Or.inl rfl

section
variable (site : Site) (typeName : String)

namespace Visit

/-- A text under a key that is neither configured nor named like a link. -/
structure IsText (x : Visit) (s : String) : Prop where
  value : x.value = .text s
  unconfigured : Dictionary.get? site.config.mapping (x.qualified typeName) = none
  unmarked : LinkKey.isLink x.key = false

/-- The key leads to a field of this name. -/
def LeadsTo (x : Visit) (name : String) : Prop :=
  x.isInferred site typeName = true ∧ x.fieldName site typeName = name

/-- What a text leads to: its own field, a link to its file, or nothing and a warning. -/
theorem outcome_of_isText {x : Visit} {s : String} (h : x.IsText site typeName s)
    (noFile : typeName ≠ fileType) :
    x.outcome site typeName =
      match Location.isFilePath site.convention (.text s) with
      | .ok false => ([(x.key, textField x.key s)], x.pass)
      | .ok true =>
        if site.registry.has fileType then ([(x.key, .link fileType false (.file x.key))], x.pass)
        else ([], { x.pass with warnings := x.pass.warnings ++
          [LinkFailure.warning (.fileType x.key ⟨fileType⟩) (x.qualified typeName)] })
      | .error e => ([], { x.pass with warnings := x.pass.warnings ++
          [LinkFailure.warning (.location e) (x.qualified typeName)] }) := by
  have unconfigured := h.unconfigured
  unfold qualified at unconfigured
  rw [outcome_eq, linkOf?, Strategy.choose_eq, unconfigured, h.unmarked, h.value]
  simp only [Bool.false_eq_true, if_false, if_neg noFile]
  rcases Location.isFilePath site.convention (.text s) with e | _ | _
  · rfl
  · simp only
    rw [ofValue_single site typeName _ _ _ rfl rfl, scalarField?_text]
  · cases registered : site.registry.has fileType with
    | true =>
      obtain ⟨type, found⟩ := Registry.get_of_has registered
      simp [Site.locationLink, found, Except.map]
    | false =>
      simp [Site.locationLink, Registry.get_of_not_has registered, Except.map]

/-- The field that another key leads to under the name of a text is a link to a record. -/
theorem link_of_leadsTo {y : Visit} {name : String} {f : OutputField} (other : y.key ≠ name)
    (yields : (name, f) ∈ (y.outcome site typeName).1) :
    ∃ linkedField isList, f.resolver = some (.node y.key linkedField isList) := by
  have named : y.fieldName site typeName = name := by
    rcases y.outcome_fieldName site typeName with none | ⟨g, one⟩
    · rw [none] at yields
      cases yields
    · rw [one] at yields
      cases List.mem_singleton.mp yields
      rfl
  have link : y.isNamedLink site typeName = true := by
    by_contra unnamed
    rw [fieldName_of_not_isNamedLink _ _ (Bool.eq_false_iff.mpr unnamed)] at named
    exact other named
  rcases linked_or_omitted_of_isNamedLink site typeName link with
    ⟨_, _, _, _, _, one⟩ | ⟨_, _, _, left⟩
  · rw [one] at yields
    cases List.mem_singleton.mp yields
    exact ⟨_, _, rfl⟩
  · rw [left] at yields
    cases yields

end Visit

/-- The fields that some keys lead to, the last one first. -/
def contributed (xs : List Visit) : List (String × OutputField) :=
  (xs.flatMap fun x => (x.outcome site typeName).1).reverse

theorem get?_contributed_eq_none_iff {xs : List Visit} {name : String} :
    Dictionary.get? (contributed site typeName xs) name = none ↔
      ∀ x ∈ xs, ¬ x.LeadsTo site typeName name := by
  rw [contributed, ← Dictionary.get?_ofList, Dictionary.get?_ofList_eq_none_iff, keys_outcomes]
  simp only [List.mem_map, List.mem_filter, not_exists, not_and, Visit.LeadsTo, and_imp]

theorem mem_of_get?_contributed {xs : List Visit} {name : String} {f : OutputField}
    (found : Dictionary.get? (contributed site typeName xs) name = some f) :
    ∃ x ∈ xs, (name, f) ∈ (x.outcome site typeName).1 := by
  have hmem := Dictionary.mem_of_get? found
  rw [contributed, List.mem_reverse, List.mem_flatMap] at hmem
  exact hmem

theorem contributed_append (xs ys : List Visit) :
    contributed site typeName (xs ++ ys) =
      contributed site typeName ys ++ contributed site typeName xs := by
  rw [contributed, List.flatMap_append, List.reverse_append]
  rfl

/-- No warning is taken back. -/
theorem warnings_prefix_ofFields (selector : String) (fields : List (String × Value))
    (pass : Pass) :
    pass.warnings <+: (ofFields site typeName selector fields pass).2.warnings := by
  obtain ⟨added, more, _⟩ := warnsOf_ofFields site typeName selector fields pass
  exact ⟨added, more.symm⟩

theorem warnings_prefix_of_mem_steps {selector : String} {fields : List (String × Value)}
    {pass : Pass} {x : Visit} (h : x ∈ steps site typeName selector fields pass) :
    (x.outcome site typeName).2.warnings <+:
      (ofFields site typeName selector fields pass).2.warnings := by
  induction fields generalizing pass with
  | nil => cases h
  | cons entry rest ih =>
    rw [ofFields_cons_eq site typeName ⟨selector, entry.1, entry.2, pass⟩]
    rcases List.mem_cons.mp h with rfl | h
    · exact warnings_prefix_ofFields site typeName selector rest _
    · exact ih h

theorem warnings_ofValue (selector fieldName : String) {v : Value} {fields : Record} {pass : Pass}
    (object : v.leadingObject? = some fields) :
    (ofValue site typeName selector fieldName v pass).2.warnings =
      (ofFields site typeName selector fields pass).2.warnings := by
  induction v using Value.leadingObject?.induct with
  | case1 own =>
    cases object
    rw [ofValue_mapping]
    rcases ofFields site typeName selector fields pass with ⟨_ | _, _⟩ <;> rfl
  | case2 head rest ih =>
    rw [ofValue_sequence site typeName selector fieldName pass rfl]
    exact ih object
  | case3 head rest ih =>
    rw [ofValue_sequence site typeName selector fieldName pass rfl]
    exact ih object
  | case4 v noMapping noList noTuple =>
    rw [Value.leadingObject?_of_other noMapping noList noTuple] at object
    cases object

namespace Call

/-- What the call leaves behind. -/
def after (c : Call) : Pass := (ofExample site typeName c.selector c.fields c.pass).2

/-- What becomes of a text: a field for it, a link to its file or, when it is the path of a file and
files have no type, no field and a warning that they have none. -/
inductive Keeps (c : Call) (x : Visit) (s : String) : Prop where
  | text (found : Dictionary.get? (c.result site typeName) x.key = some (textField x.key s))
  | file (found : Dictionary.get? (c.result site typeName) x.key =
      some (.link fileType false (.file x.key)))
  | unregistered (path : Location.isFilePath site.convention (.text s) = .ok true)
      (noType : site.registry.has fileType = false)
      (absent : Dictionary.get? (c.result site typeName) x.key = none)
      (told : ∃ w : Warning, w.selector = x.qualified typeName ∧ w.category = .missingType ∧
        x.pass.warnings ++ [w] <+: (c.after site typeName).warnings)

variable {site typeName}

theorem after_eq (c : Call) : c.after site typeName =
    (ofFields site typeName (c.selector.getD "") (shown c.selector c.fields) c.pass).2 := by
  obtain ⟨selector, fields, pass⟩ := c
  cases selector <;> rfl

/-- The warnings of a nested object are among those of the call. -/
theorem Reaches.warnings_prefix {c d : Call} (h : Reaches site typeName c d) :
    (d.after site typeName).warnings <+: (c.after site typeName).warnings := by
  induction h with
  | self => exact List.prefix_rfl
  | @nested c d x fields visited unclaimed object _ ih =>
    refine ih.trans ?_
    have own : (x.outcome site typeName).2.warnings =
        (ofFields site typeName (childSelector x.selector x.key) fields x.pass).2.warnings := by
      rw [Visit.outcome_eq, unclaimed, ← warnings_ofValue site typeName _ x.key object]
      rcases ofValue site typeName (childSelector x.selector x.key) x.key x.value x.pass with
        ⟨_ | _, _⟩ <;> rfl
    rw [after_eq, after_eq, Option.getD_some, shown, ← own]
    exact warnings_prefix_of_mem_steps site typeName visited

section
variable {c : Call} {before after : List Visit} {x : Visit} {s : String}

theorem get?_result_of_visited (visited : c.visited site typeName = before ++ x :: after)
    (name : String) :
    Dictionary.get? (c.result site typeName) name =
      ((Dictionary.get? (contributed site typeName after) name).or
        (Dictionary.get? (contributed site typeName [x]) name)).or
        (Dictionary.get? (contributed site typeName before) name) := by
  have parts : before ++ x :: after = before ++ ([x] ++ after) := rfl
  rw [result_eq, visited, Dictionary.get?_ofList, ← contributed, parts, contributed_append,
    contributed_append, Dictionary.get?_append, Dictionary.get?_append]

theorem ne_key_of_visited (distinct : (Dictionary.keys c.fields).Nodup)
    (visited : c.visited site typeName = before ++ x :: after) :
    (∀ y ∈ before, y.key ≠ x.key) ∧ ∀ y ∈ after, y.key ≠ x.key := by
  have keys : ((c.visited site typeName).map Visit.key).Nodup := by
    rw [Call.visited, keys_steps]
    exact distinct.sublist (c.sublist_shown.map _)
  rw [visited, List.map_append, List.map_cons, List.nodup_middle, List.nodup_cons,
    List.mem_append, not_or, List.mem_map, List.mem_map] at keys
  exact ⟨fun y hy same => keys.1.1 ⟨y, hy, same⟩, fun y hy same => keys.1.2 ⟨y, hy, same⟩⟩

/-- No other key leads to a field for the text or to a link to its file. -/
theorem ne_of_get?_contributed {ys : List Visit} {f : OutputField}
    (others : ∀ y ∈ ys, y.key ≠ x.key)
    (found : Dictionary.get? (contributed site typeName ys) x.key = some f) :
    f ≠ textField x.key s ∧ f ≠ .link fileType false (.file x.key) := by
  obtain ⟨y, hy, yields⟩ := mem_of_get?_contributed _ _ found
  obtain ⟨linkedField, isList, attached⟩ := Visit.link_of_leadsTo _ _ (others y hy) yields
  constructor
  · rintro rfl
    rcases textField_resolver x.key s with plain | date
    · cases plain.symm.trans attached
    · cases date.symm.trans attached
  · rintro rfl
    cases attached

/-- A text that leads to a field is kept exactly when no later key takes the name of that field. -/
theorem keeps_iff_of_field {f : OutputField} (distinct : (Dictionary.keys c.fields).Nodup)
    (visited : c.visited site typeName = before ++ x :: after)
    (own : x.outcome site typeName = ([(x.key, f)], x.pass))
    (form : f = textField x.key s ∨ f = .link fileType false (.file x.key)) :
    c.Keeps site typeName x s ↔ ∀ y ∈ after, ¬ y.LeadsTo site typeName x.key := by
  have yields : Dictionary.get? (contributed site typeName [x]) x.key = some f := by
    simp [contributed, own, Dictionary.get?]
  rw [← get?_contributed_eq_none_iff]
  have look := get?_result_of_visited visited x.key
  cases later : Dictionary.get? (contributed site typeName after) x.key with
  | none =>
    rw [later, yields, Option.none_or, Option.some_or] at look
    refine iff_of_true ?_ rfl
    rcases form with rfl | rfl
    · exact .text look
    · exact .file look
  | some g =>
    rw [later, Option.some_or, Option.some_or] at look
    have other := ne_of_get?_contributed (s := s) (ne_key_of_visited distinct visited).2 later
    refine iff_of_false (fun kept => ?_) (Option.some_ne_none g)
    cases kept with
    | text found => exact other.1 (Option.some.inj (look.symm.trans found))
    | file found => exact other.2 (Option.some.inj (look.symm.trans found))
    | unregistered _ _ absent => cases look.symm.trans absent

/-- A text that leads to no field is kept exactly when it is the path of a file, files have no type,
and no other key leads to a field of its name. -/
theorem keeps_iff_of_noField {e : LinkFailure} (distinct : (Dictionary.keys c.fields).Nodup)
    (visited : c.visited site typeName = before ++ x :: after)
    (own : x.outcome site typeName = ([], { x.pass with
      warnings := x.pass.warnings ++ [e.warning (x.qualified typeName)] }))
    (category : Location.isFilePath site.convention (.text s) = .ok true →
      e.category = .missingType)
    (noType : Location.isFilePath site.convention (.text s) = .ok true →
      site.registry.has fileType = false) :
    c.Keeps site typeName x s ↔ Location.isFilePath site.convention (.text s) = .ok true ∧
      (∀ y ∈ after, ¬ y.LeadsTo site typeName x.key) ∧
      ∀ y ∈ before, ¬ y.LeadsTo site typeName x.key := by
  have yields : Dictionary.get? (contributed site typeName [x]) x.key = none := by
    simp [contributed, own, Dictionary.get?]
  have others := ne_key_of_visited distinct visited
  have look := get?_result_of_visited visited x.key
  rw [yields, Option.or_none] at look
  rw [← get?_contributed_eq_none_iff, ← get?_contributed_eq_none_iff, ← Option.or_eq_none_iff,
    ← look]
  constructor
  · intro kept
    have other (f : OutputField) (found : Dictionary.get? (c.result site typeName) x.key = some f) :
        f ≠ textField x.key s ∧ f ≠ .link fileType false (.file x.key) := by
      rw [look] at found
      rcases Option.or_eq_some_iff.mp found with later | ⟨_, earlier⟩
      · exact ne_of_get?_contributed others.2 later
      · exact ne_of_get?_contributed others.1 earlier
    cases kept with
    | text found => exact absurd rfl (other _ found).1
    | file found => exact absurd rfl (other _ found).2
    | unregistered path _ absent => exact ⟨path, absent⟩
  · rintro ⟨path, absent⟩
    refine .unregistered path (noType path) absent ⟨e.warning _, rfl, category path, ?_⟩
    have hmem :
        x ∈ steps site typeName (c.selector.getD "") (shown c.selector c.fields) c.pass := by
      have here : x ∈ c.visited site typeName := by
        rw [visited]
        exact List.mem_append_right _ List.mem_cons_self
      exact here
    have told := warnings_prefix_of_mem_steps site typeName hmem
    rw [own] at told
    rw [after_eq]
    exact told

theorem keeps_iff (distinct : (Dictionary.keys c.fields).Nodup) (noFile : typeName ≠ fileType)
    (visited : c.visited site typeName = before ++ x :: after) (text : x.IsText site typeName s) :
    c.Keeps site typeName x s ↔
      (∃ isPath, Location.isFilePath site.convention (.text s) = .ok isPath) ∧
        (∀ y ∈ after, ¬ y.LeadsTo site typeName x.key) ∧
        (x.isInferred site typeName = false → ∀ y ∈ before, ¬ y.LeadsTo site typeName x.key) := by
  have own := Visit.outcome_of_isText site typeName text noFile
  have inferred : x.isInferred site typeName = !(x.outcome site typeName).1.isEmpty := rfl
  rcases path : Location.isFilePath site.convention (.text s) with e | _ | _
  · simp only [path] at own
    rw [keeps_iff_of_noField distinct visited own (by simp [path]) (by simp [path])]
    simp [path]
  · simp only [path] at own
    rw [keeps_iff_of_field distinct visited own (.inl rfl)]
    simp [inferred, own]
  · cases registered : site.registry.has fileType with
    | true =>
      simp only [path, registered, if_true] at own
      rw [keeps_iff_of_field distinct visited own (.inr rfl)]
      simp [inferred, own]
    | false =>
      simp only [path, registered, Bool.false_eq_true, if_false] at own
      rw [keeps_iff_of_noField distinct visited own (fun _ => rfl) (fun _ => registered)]
      simp [inferred, own, path]

end
end Call
end

/-- A text is kept exactly when it can be told whether it is the path of a file, no later key leads
to a field of its name and, if it leads to none itself, no earlier one does. It cannot be told of
the texts with a broken host; or, where media types are told by the colon, of those among them that
would be the path of a file but for their host. The example, where one is given, has no key
twice. -/
theorem text_kept_iff (b : Build) (records : List Record) (selector : Option String)
    (given : Option Record)
    (distinct : ∀ fields, given = some fields → (Value.mapping fields).KeysDistinct) :
    ∃ typeName first, typeNameOf (records.map Value.mapping) = .ok typeName ∧
      first = Call.mk selector (given.getD (Example.ofRecords records)) b.pass ∧
      (b.outputFields (records.map Value.mapping) selector given).1 =
        .ok (first.result b.site typeName) ∧
      (typeName ≠ fileType → ∀ c, Call.Reaches b.site typeName first c →
        (c.after b.site typeName).warnings <+:
            (b.outputFields (records.map Value.mapping) selector given).2.pass.warnings ∧
          ∀ before x after s, c.visited b.site typeName = before ++ x :: after →
            x.IsText b.site typeName s →
            (c.Keeps b.site typeName x s ↔
              (∃ isPath, Location.isFilePath b.site.convention (.text s) = .ok isPath) ∧
                (∀ y ∈ after, ¬ y.LeadsTo b.site typeName x.key) ∧
                (x.isInferred b.site typeName = false →
                  ∀ y ∈ before, ¬ y.LeadsTo b.site typeName x.key))) ∧
      ∀ s, (∃ isPath, Location.isFilePath b.site.convention (.text s) = .ok isPath) ↔
        ¬ (Url.HasBrokenHost s.toList ∧ (b.site.convention = .colon →
          MediaType.isInformative .colon s = .ok true ∧
            Location.isRelativePath s.toList = true)) := by
  refine ⟨_, _, typeNameOf_mapping records, rfl, ?run, fun noFile c reached => ⟨?warned, ?kept⟩,
    fun s => Location.exists_isFilePath_text_iff⟩
  case run =>
    rw [Build.outputFields_mapping]
    rfl
  case warned =>
    have ends := reached.warnings_prefix
    rw [Build.outputFields_mapping]
    rw [Call.after_eq (Call.mk _ _ _)] at ends
    exact ends
  case kept =>
    intro before x after s visited text
    have apart : (Value.mapping (given.getD (Example.ofRecords records))).KeysDistinct := by
      cases given with
      | none => exact Example.keysDistinct_ofRecords records
      | some fields => exact distinct fields rfl
    exact Call.keeps_iff (reached.keysDistinct apart).own noFile visited text

end OutputFields

private def covered : Record := [("cover", .text "a.png")]

private theorem keysDistinct_covered :
    ∀ fields, some covered = some fields → (Value.mapping fields).KeysDistinct := by
  rintro fields ⟨⟩
  have own : Example.ofRecords [covered] = covered :=
    Example.ofRecords_singleton (by decide)
      (List.forall_mem_singleton.mpr (Example.merge_leaf rfl _))
  rw [← own]
  exact Example.keysDistinct_ofRecords _

/-- Without a type for files the cover has no field, and a warning says why. -/
theorem text_kept_cover :
    let b := Build.start .empty .empty ⟨⟨2020, 1, 10⟩, 0, 0, 0, 0, 0⟩
    let x : OutputFields.Visit := ⟨"", "cover", .text "a.png", b.pass⟩
    (∀ fields, some covered = some fields → (Value.mapping fields).KeysDistinct) ∧
      x.IsText b.site "Post" "a.png" ∧
      (OutputFields.Call.mk none covered b.pass).Keeps b.site "Post" x "a.png" := by
  intro b x
  have text : x.IsText b.site "Post" "a.png" := ⟨rfl, rfl, by decide⟩
  refine ⟨keysDistinct_covered, text, ?_⟩
  obtain ⟨_, _, named, rfl, _, calls, _⟩ := OutputFields.text_kept_iff b [[("type", .text "Post")]]
    none (some covered) keysDistinct_covered
  cases named
  have path : Location.isFilePath .url (.text "a.png") = .ok true := by rfl
  refine ((calls (by decide) _ (.self _)).2 [] x [] "a.png" rfl text).mpr ⟨⟨true, path⟩, nofun, ?_⟩
  exact fun _ => nofun

private def addressed : Record := [("type", .text "Post"), ("cover", .text "http://[abc/x.png")]

/-- A cover with half a bracket in its host. It has no field at all, and the warning is that of a
failure. -/
theorem cover_lost_to_bracket :
    let run := (Build.start .empty .empty ⟨⟨2020, 1, 10⟩, 0, 0, 0, 0, 0⟩).outputFields
      ([addressed].map Value.mapping) none none
    run.1 = .ok [] ∧ run.2.pass.warnings =
      [⟨"Post.cover", "Could not infer field: Invalid IPv6 URL", .fieldError⟩] := by
  intro run
  have own : Example.ofRecords [addressed] = addressed := by
    refine Example.ofRecords_singleton (by decide) ?_
    simp only [addressed, List.forall_mem_cons]
    exact ⟨Example.merge_leaf rfl _, Example.merge_leaf rfl _, nofun⟩
  have built : run = _ := Build.outputFields_mapping _ [addressed] none none
  simp only [Option.getD_none, own] at built
  rw [built]
  exact ⟨rfl, rfl⟩

end ContentSchema

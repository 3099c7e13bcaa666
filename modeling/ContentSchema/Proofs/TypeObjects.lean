import ContentSchema.Proofs.RegisteredNames
import ContentSchema.Proofs.TypeRenaming

/-! Object types as they stand in memory. Registry entries and links hold the place of an object
type, and so lead to it whatever happens to its fields. Read by the names of the object types, a
memory is a registry. -/
namespace ContentSchema

/-- A field whose links lead to object types by their places. -/
abbrev HeldField := Field (SchemaType Nat)

/-- An object type. Its fields come and go, its name does not. -/
structure TypeObject where
  name : String
  fields : Dictionary HeldField

/-- What is registered under a key: a name, the records, and the place of the object type. -/
structure TypeEntry where
  name : String
  nodes : List Value
  object : Nat

/-- The entries of a registry, and all object types that were made for one. -/
structure TypeMemory where
  entries : Dictionary TypeEntry
  objects : List TypeObject

namespace TypeMemory

def empty : TypeMemory := ⟨[], []⟩

section
variable (m : TypeMemory)

def entryOf? (name : String) : Option TypeEntry := Dictionary.get? m.entries name

/-- Where the object type of a registered name is. -/
def placeOf (name : String) : Nat := ((m.entryOf? name).map TypeEntry.object).getD 0

def nameAt (place : Nat) : String := (m.objects[place]?.map TypeObject.name).getD ""

def fieldsAt (place : Nat) : Dictionary HeldField :=
  (m.objects[place]?.map TypeObject.fields).getD []

/-- A field with the registered object types in the place of their names. -/
def hold (f : OutputField) : HeldField := f.rename m.placeOf id

/-- A field with the names of the object types that it leads to. -/
def tell (f : HeldField) : OutputField := f.rename m.nameAt id

def holdAll (fields : Dictionary OutputField) : Dictionary HeldField :=
  fields.map fun (key, f) => (key, m.hold f)

def tellAll (fields : Dictionary HeldField) : Dictionary OutputField :=
  fields.map fun (key, f) => (key, m.tell f)

/-- The record type that an entry shows at present. -/
def shown (e : TypeEntry) : RecordType := ⟨e.nodes, m.tellAll (m.fieldsAt e.object)⟩

def registry : Registry := ⟨m.entries.map fun (key, e) => (key, m.shown e)⟩

/-- Register a new object type that has no fields. -/
def register (name : String) (nodes : List Value) : TypeMemory :=
  ⟨Dictionary.put m.entries name ⟨name, nodes, m.objects.length⟩, m.objects ++ [⟨name, []⟩]⟩

/-- Give a registered type other records. -/
def setNodes (name : String) (nodes : List Value) : TypeMemory :=
  match m.entryOf? name with
  | some e => { m with entries := Dictionary.put m.entries name { e with nodes := nodes } }
  | none => m

/-- Change the fields of a registered type in its object type. -/
def changeFields (name : String) (change : Dictionary HeldField → Dictionary HeldField) :
    TypeMemory :=
  match m.entryOf? name with
  | some e => { m with
      objects := m.objects.modify e.object fun o => { o with fields := change o.fields } }
  | none => m

/-- Register a type without fields, unless it is registered and has none. -/
def declare (name : String) (nodes : List Value) :
    Except AlreadyDefined (TypeEntry × TypeMemory) :=
  match m.entryOf? name with
  | some e => if (m.fieldsAt e.object).isEmpty then .ok (e, m) else .error ⟨name⟩
  | none => .ok (⟨name, nodes, m.objects.length⟩, m.register name nodes)

/-- Register a type, or take away its fields, and give it its records. -/
def prepare (name : String) (nodes : List Value) : TypeMemory :=
  match m.entryOf? name with
  | some _ => (m.setNodes name nodes).changeFields name fun _ => []
  | none => m.register name nodes

/-- There is an entry for the object type at a place. -/
def Holds (place : Nat) : Prop := ∃ name e, m.entryOf? name = some e ∧ e.object = place

/-- A field leads to the object types that are registered under its names. -/
structure Leads (f : OutputField) (held : HeldField) : Prop where
  held : held = m.hold f
  registered : ∀ target ∈ f.links, (m.entryOf? target).isSome

/-- A type is registered and has at least one field. -/
def HasFields (name : String) : Prop :=
  ∃ e, m.entryOf? name = some e ∧ m.fieldsAt e.object ≠ []

/-- No key twice, entries and object types named like their keys, and links that lead to registered
object types. -/
structure Sound : Prop where
  distinct : (Dictionary.keys m.entries).Nodup
  named : ∀ key e, m.entryOf? key = some e →
    e.name = key ∧ ∃ o, m.objects[e.object]? = some o ∧ o.name = key
  linked : ∀ o ∈ m.objects, ∀ key f, (key, f) ∈ o.fields → ∀ place ∈ f.links, m.Holds place

end

theorem sound_empty : empty.Sound where
  distinct := List.nodup_nil
  named := nofun
  linked := nofun

/-- Names stay registered in their order, each for the same object type, and object types keep their
places and names. -/
structure Extends (m n : TypeMemory) : Prop where
  names : Dictionary.keys m.entries <+: Dictionary.keys n.entries
  entry : ∀ name e, m.entryOf? name = some e →
    ∃ e', n.entryOf? name = some e' ∧ e'.object = e.object
  object : ∀ (place : Nat) (o : TypeObject), m.objects[place]? = some o →
    ∃ o' : TypeObject, n.objects[place]? = some o' ∧ o'.name = o.name

namespace Extends
variable {l m n : TypeMemory}

theorem refl (m : TypeMemory) : m.Extends m where
  names := List.prefix_refl _
  entry _ e h := ⟨e, h, rfl⟩
  object _ o h := ⟨o, h, rfl⟩

theorem trans (first : l.Extends m) (second : m.Extends n) : l.Extends n where
  names := first.names.trans second.names
  entry name e h := by
    obtain ⟨e', h', same'⟩ := first.entry name e h
    obtain ⟨e'', h'', same''⟩ := second.entry name e' h'
    exact ⟨e'', h'', same''.trans same'⟩
  object place o h := by
    obtain ⟨o', h', same'⟩ := first.object place o h
    obtain ⟨o'', h'', same''⟩ := second.object place o' h'
    exact ⟨o'', h'', same''.trans same'⟩

end Extends

section
variable {m n : TypeMemory} {name : String} {e : TypeEntry} {place : Nat}

theorem placeOf_eq (registered : m.entryOf? name = some e) : m.placeOf name = e.object := by
  rw [placeOf, registered]
  rfl

theorem Extends.isSome_entryOf? (grown : m.Extends n) (registered : (m.entryOf? name).isSome) :
    (n.entryOf? name).isSome := by
  obtain ⟨e, found⟩ := Option.isSome_iff_exists.mp registered
  obtain ⟨e', found', _⟩ := grown.entry name e found
  exact Option.isSome_iff_exists.mpr ⟨e', found'⟩

theorem Extends.placeOf_eq (grown : m.Extends n) (registered : (m.entryOf? name).isSome) :
    n.placeOf name = m.placeOf name := by
  obtain ⟨e, found⟩ := Option.isSome_iff_exists.mp registered
  obtain ⟨e', found', same⟩ := grown.entry name e found
  rw [TypeMemory.placeOf_eq found, TypeMemory.placeOf_eq found', same]

theorem Extends.holds (grown : m.Extends n) (h : m.Holds place) : n.Holds place := by
  obtain ⟨name, e, found, rfl⟩ := h
  obtain ⟨e', found', same⟩ := grown.entry name e found
  exact ⟨name, e', found', same⟩

theorem Extends.hold_eq (grown : m.Extends n) {f : OutputField}
    (registered : ∀ target ∈ f.links, (m.entryOf? target).isSome) : n.hold f = m.hold f :=
  Field.rename_congr id fun target inside => grown.placeOf_eq (registered target inside)

theorem Extends.leads (grown : m.Extends n) {f : OutputField} {held : HeldField}
    (leads : m.Leads f held) : n.Leads f held where
  held := leads.held.trans (grown.hold_eq leads.registered).symm
  registered target inside := grown.isSome_entryOf? (leads.registered target inside)

theorem holds_placeOf (registered : (m.entryOf? name).isSome) : m.Holds (m.placeOf name) := by
  obtain ⟨e, found⟩ := Option.isSome_iff_exists.mp registered
  exact ⟨name, e, found, (placeOf_eq found).symm⟩

/-- A field that is held leads to registered object types if its names are registered. -/
theorem holds_of_mem_links_hold {f : OutputField}
    (registered : ∀ target ∈ f.links, (m.entryOf? target).isSome) (h : place ∈ (m.hold f).links) :
    m.Holds place := by
  rw [hold, Field.links_rename] at h
  obtain ⟨target, inside, rfl⟩ := List.mem_map.mp h
  exact holds_placeOf (registered target inside)

theorem Sound.holds_of_mem_fieldsAt (sound : m.Sound) {at' : Nat} {key : String} {f : HeldField}
    (hf : (key, f) ∈ m.fieldsAt at') (inside : place ∈ f.links) : m.Holds place := by
  rw [fieldsAt] at hf
  cases there : m.objects[at']? with
  | none =>
    rw [there] at hf
    cases hf
  | some o =>
    rw [there] at hf
    exact sound.linked o (List.mem_of_getElem? there) key f hf place inside

theorem Sound.nameAt_of_entryOf? (sound : m.Sound) (found : m.entryOf? name = some e) :
    m.nameAt e.object = name := by
  obtain ⟨_, o, there, own⟩ := sound.named name e found
  rw [nameAt, there]
  exact own

/-- Different names are registered for different object types. -/
theorem Sound.eq_of_object_eq (sound : m.Sound) {other : String} {e' : TypeEntry}
    (found : m.entryOf? name = some e) (found' : m.entryOf? other = some e')
    (same : e.object = e'.object) : name = other := by
  rw [← sound.nameAt_of_entryOf? found, ← sound.nameAt_of_entryOf? found', same]

theorem Extends.nameAt_eq (grown : m.Extends n) (sound : m.Sound) (h : m.Holds place) :
    n.nameAt place = m.nameAt place := by
  obtain ⟨name, e, found, rfl⟩ := h
  obtain ⟨_, o, there, own⟩ := sound.named name e found
  obtain ⟨o', there', same⟩ := grown.object _ o there
  rw [nameAt, nameAt, there, there']
  exact same

theorem Extends.tell_eq (grown : m.Extends n) (sound : m.Sound) {f : HeldField}
    (held : ∀ place ∈ f.links, m.Holds place) : n.tell f = m.tell f :=
  Field.rename_congr id fun place inside => grown.nameAt_eq sound (held place inside)

theorem Extends.tellAll_eq (grown : m.Extends n) (sound : m.Sound) {fields : Dictionary HeldField}
    (held : ∀ key f, (key, f) ∈ fields → ∀ place ∈ f.links, m.Holds place) :
    n.tellAll fields = m.tellAll fields := by
  apply List.map_congr_left
  rintro ⟨key, f⟩ hf
  exact congrArg (Prod.mk key) (grown.tell_eq sound (held key f hf))

/-- Read by names, a field that is held is the field itself. -/
theorem Sound.tell_hold (sound : m.Sound) {f : OutputField}
    (registered : ∀ target ∈ f.links, (m.entryOf? target).isSome) : m.tell (m.hold f) = f := by
  have back : ∀ target ∈ f.links, (m.nameAt ∘ m.placeOf) target = id target := by
    intro target inside
    obtain ⟨e, found⟩ := Option.isSome_iff_exists.mp (registered target inside)
    rw [Function.comp_apply, placeOf_eq found, sound.nameAt_of_entryOf? found]
    rfl
  rw [tell, hold, Field.rename_rename, Field.rename_congr _ back]
  exact Field.rename_id f

theorem Sound.tellAll_holdAll (sound : m.Sound) {fields : Dictionary OutputField}
    (registered : ∀ key f, (key, f) ∈ fields → ∀ target ∈ f.links, (m.entryOf? target).isSome) :
    m.tellAll (m.holdAll fields) = fields := by
  rw [tellAll, holdAll, List.map_map]
  conv_rhs => rw [← List.map_id fields]
  apply List.map_congr_left
  rintro ⟨key, f⟩ hf
  exact congrArg (Prod.mk key) (sound.tell_hold (registered key f hf))

theorem registry_get? (m : TypeMemory) (name : String) :
    m.registry.get? name = (m.entryOf? name).map m.shown :=
  Dictionary.get?_map m.entries m.shown name

theorem registry_has (m : TypeMemory) (name : String) :
    m.registry.has name = (m.entryOf? name).isSome := by
  rw [Registry.has, registry_get?, Option.isSome_map]

theorem registry_names (m : TypeMemory) : m.registry.names = Dictionary.keys m.entries := by
  simp [Registry.names, registry, Dictionary.keys, Function.comp_def]

end

/-- One registered type was written. Of all others the entries and the object types are what they
were. -/
structure Writes (name : String) (type : RecordType) (m n : TypeMemory) : Prop where
  grown : m.Extends n
  sound : n.Sound
  entry : ∀ key, key ≠ name → n.entryOf? key = m.entryOf? key
  object : ∀ key e, key ≠ name → m.entryOf? key = some e →
    n.objects[e.object]? = m.objects[e.object]?
  registry : n.registry = m.registry.put name type

namespace Writes
variable {l m n : TypeMemory} {name : String} {type old : RecordType} {e : TypeEntry}

theorem trans (first : Writes name old l m) (second : Writes name type m n) :
    Writes name type l n where
  grown := first.grown.trans second.grown
  sound := second.sound
  entry key other := (second.entry key other).trans (first.entry key other)
  object key e other found := by
    rw [second.object key e other ((first.entry key other).trans found),
      first.object key e other found]
  registry := by
    rw [second.registry, first.registry]
    exact congrArg Registry.mk (Dictionary.put_put _ _ _ _)

/-- Whatever sets one entry and leaves the object types of the others alone writes what the entry
then shows. -/
theorem of_put (sound : m.Sound) (grown : m.Extends n)
    (entries : n.entries = Dictionary.put m.entries name e)
    (own : e.name = name ∧ ∃ o, n.objects[e.object]? = some o ∧ o.name = name)
    (linked : ∀ o ∈ n.objects, ∀ key f, (key, f) ∈ o.fields → ∀ place ∈ f.links, n.Holds place)
    (object : ∀ key e, key ≠ name → m.entryOf? key = some e →
      n.objects[e.object]? = m.objects[e.object]?) :
    Writes name (n.shown e) m n where
  grown := grown
  sound := by
    refine ⟨?_, fun key e' found => ?_, linked⟩
    · rw [entries]
      exact Dictionary.nodup_keys_put sound.distinct name e
    · rw [entryOf?, entries, Dictionary.get?_put] at found
      split at found
      · rename_i same
        cases found
        exact same ▸ own
      · obtain ⟨named, o, there, ofObject⟩ := sound.named key e' found
        obtain ⟨o', there', same⟩ := grown.object _ o there
        exact ⟨named, o', there', same.trans ofObject⟩
  entry key other := by
    rw [entryOf?, entries, Dictionary.get?_put, if_neg (Ne.symm other), entryOf?]
  object := object
  registry := by
    have others : ∀ key e', (key, e') ∈ m.entries → key ≠ name → n.shown e' = m.shown e' := by
      intro key e' hmem other
      have found : m.entryOf? key = some e' := Dictionary.get?_eq_of_mem sound.distinct hmem
      have fields : n.fieldsAt e'.object = m.fieldsAt e'.object := by
        rw [fieldsAt, object key e' other found, fieldsAt]
      rw [shown, shown, fields, grown.tellAll_eq sound fun _ _ hf _ inside =>
        sound.holds_of_mem_fieldsAt hf inside]
    rw [TypeMemory.registry, entries, Dictionary.put_map]
    exact congrArg Registry.mk (Dictionary.put_map_congr sound.distinct others _)

theorem exists_entry (writes : Writes name type m n) :
    ∃ e, n.entryOf? name = some e ∧ n.shown e = type := by
  have written : n.registry.get? name = some type := by
    rw [writes.registry, Registry.get?, Registry.put, Dictionary.get?_put, if_pos rfl]
  rw [registry_get?] at written
  exact Option.map_eq_some_iff.mp written

theorem shown_eq (writes : Writes name type m n) (found : n.entryOf? name = some e) :
    n.shown e = type := by
  obtain ⟨e', found', shows⟩ := writes.exists_entry
  rw [found'] at found
  cases found
  exact shows

end Writes

section
variable {m : TypeMemory} {name : String} {e : TypeEntry} {nodes : List Value}
  {change : Dictionary HeldField → Dictionary HeldField}

theorem register_getElem? {place : Nat} {o : TypeObject} (there : m.objects[place]? = some o) :
    (m.register name nodes).objects[place]? = some o := by
  obtain ⟨inside, _⟩ := List.getElem?_eq_some_iff.mp there
  rw [register, List.getElem?_append_left inside, there]

theorem extends_register (new : m.entryOf? name = none) : m.Extends (m.register name nodes) where
  names := by
    rw [register, Dictionary.put_eq_append _ (Dictionary.get?_eq_none_iff.mp new),
      Dictionary.keys, Dictionary.keys, List.map_append]
    exact List.prefix_append _ _
  entry key e found := by
    have other : name ≠ key := by
      rintro rfl
      rw [new] at found
      cases found
    refine ⟨e, ?_, rfl⟩
    rw [entryOf?, register, Dictionary.get?_put, if_neg other]
    exact found
  object place o there := ⟨o, register_getElem? there, rfl⟩

theorem writes_register (sound : m.Sound) (new : m.entryOf? name = none) (nodes : List Value) :
    Writes name ⟨nodes, []⟩ m (m.register name nodes) := by
  have grown : m.Extends (m.register name nodes) := extends_register new
  have own : (m.register name nodes).objects[m.objects.length]? = some ⟨name, []⟩ := by
    rw [register, List.getElem?_concat_length]
  have writes := Writes.of_put (e := ⟨name, nodes, m.objects.length⟩) sound grown rfl
    ⟨rfl, _, own, rfl⟩ ?linked ?object
  case linked =>
    intro o hmem key f hf place inside
    rcases List.mem_append.mp hmem with old | fresh
    · exact grown.holds (sound.linked o old key f hf place inside)
    · cases List.mem_singleton.mp fresh
      cases hf
  case object =>
    intro key e _ found
    obtain ⟨_, o, there, _⟩ := sound.named key e found
    rw [register_getElem? there, there]
  have bare : (m.register name nodes).shown ⟨name, nodes, m.objects.length⟩ = ⟨nodes, []⟩ := by
    rw [shown, fieldsAt, own]
    rfl
  exact bare ▸ writes

theorem setNodes_eq (found : m.entryOf? name = some e) :
    m.setNodes name nodes =
      { m with entries := Dictionary.put m.entries name { e with nodes := nodes } } := by
  rw [setNodes, found]

theorem extends_setNodes (found : m.entryOf? name = some e) :
    m.Extends (m.setNodes name nodes) := by
  rw [setNodes_eq found]
  refine ⟨?_, fun key e' found' => ?_, fun place o there => ⟨o, there, rfl⟩⟩
  · have present : Dictionary.has m.entries name = true := Option.isSome_iff_exists.mpr ⟨e, found⟩
    have same : Dictionary.keys (Dictionary.put m.entries name { e with nodes := nodes }) =
        Dictionary.keys m.entries := by
      rw [Dictionary.keys_put, if_pos present]
    exact same ▸ List.prefix_refl _
  · rw [entryOf?, Dictionary.get?_put]
    split
    · rename_i same
      subst same
      cases found.symm.trans found'
      exact ⟨_, rfl, rfl⟩
    · exact ⟨e', found', rfl⟩

theorem writes_setNodes (sound : m.Sound) (found : m.entryOf? name = some e) (nodes : List Value) :
    Writes name ⟨nodes, (m.shown e).fields⟩ m (m.setNodes name nodes) := by
  have grown : m.Extends (m.setNodes name nodes) := extends_setNodes found
  rw [setNodes_eq found] at grown ⊢
  exact .of_put sound grown rfl (sound.named name e found)
    (fun o hmem key f hf place inside => grown.holds (sound.linked o hmem key f hf place inside))
    (fun _ _ _ _ => rfl)

theorem changeFields_getElem? (found : m.entryOf? name = some e) (place : Nat) :
    (m.changeFields name change).objects[place]? =
      m.objects[place]?.map fun o =>
        if e.object = place then { o with fields := change o.fields } else o := by
  rw [changeFields, found]
  simp only [List.getElem?_modify]
  split <;> simp

theorem changeFields_entries (m : TypeMemory) (name : String)
    (change : Dictionary HeldField → Dictionary HeldField) :
    (m.changeFields name change).entries = m.entries := by
  unfold changeFields
  split <;> rfl

theorem extends_changeFields (found : m.entryOf? name = some e) :
    m.Extends (m.changeFields name change) where
  names := (changeFields_entries m name change).symm ▸ List.prefix_refl _
  entry key e' found' := by
    refine ⟨e', ?_, rfl⟩
    rw [entryOf?, changeFields_entries]
    exact found'
  object place o there := by
    rw [changeFields_getElem? found, there]
    exact ⟨_, rfl, by split <;> rfl⟩

theorem writes_changeFields (sound : m.Sound) (found : m.entryOf? name = some e)
    (change : Dictionary HeldField → Dictionary HeldField)
    (linked : ∀ key f, (key, f) ∈ change (m.fieldsAt e.object) → ∀ place ∈ f.links, m.Holds place) :
    Writes name ⟨e.nodes, m.tellAll (change (m.fieldsAt e.object))⟩ m
      (m.changeFields name change) := by
  obtain ⟨named, o, there, own⟩ := sound.named name e found
  have grown : m.Extends (m.changeFields name change) := extends_changeFields found
  have old : m.fieldsAt e.object = o.fields := by
    rw [fieldsAt, there]
    rfl
  have now : (m.changeFields name change).objects[e.object]? =
      some { o with fields := change o.fields } := by
    rw [changeFields_getElem? found, there, Option.map_some, if_pos rfl]
  have writes := Writes.of_put (e := e) sound grown ?entries ⟨named, _, now, own⟩ ?linked ?object
  case entries =>
    rw [changeFields_entries]
    exact (Dictionary.put_eq_self found).symm
  case linked =>
    intro o' hmem key f hf place inside
    obtain ⟨i, hi⟩ := List.mem_iff_getElem?.mp hmem
    rw [changeFields_getElem? found] at hi
    obtain ⟨before, hbefore, rfl⟩ := Option.map_eq_some_iff.mp hi
    apply grown.holds
    split at hf
    · rename_i same
      rw [← same, there] at hbefore
      cases hbefore
      exact linked key f (old ▸ hf) place inside
    · exact sound.linked before (List.mem_of_getElem? hbefore) key f hf place inside
  case object =>
    intro key e' other found'
    have apart : e.object ≠ e'.object := fun same =>
      other (sound.eq_of_object_eq found found' same).symm
    simp only [changeFields_getElem? found, if_neg apart, Option.map_id_fun', id]
  have fields : (m.changeFields name change).fieldsAt e.object = change (m.fieldsAt e.object) := by
    rw [fieldsAt, now, old]
    rfl
  rw [shown, fields, grown.tellAll_eq sound linked] at writes
  exact writes

/-- A type that is prepared has its records and no fields. -/
theorem writes_prepare (sound : m.Sound) (name : String) (nodes : List Value) :
    Writes name ⟨nodes, []⟩ m (m.prepare name nodes) := by
  cases found : m.entryOf? name with
  | none =>
    rw [prepare, found]
    exact writes_register sound found nodes
  | some e =>
    have given := writes_setNodes sound found nodes
    obtain ⟨e', found', _⟩ := given.grown.entry name e found
    have records : e'.nodes = nodes := congrArg RecordType.nodes (given.shown_eq found')
    have cleared := writes_changeFields given.sound found' (fun _ => []) nofun
    rw [records] at cleared
    rw [prepare, found]
    exact given.trans cleared

/-- A type that has no fields gets fields that lead to registered types. -/
theorem writes_fill (sound : m.Sound) (found : m.entryOf? name = some e)
    (bare : m.shown e = ⟨nodes, []⟩) {fields : Dictionary OutputField}
    (distinct : (Dictionary.keys fields).Nodup)
    (registered : ∀ key f, (key, f) ∈ fields → ∀ target ∈ f.links, (m.entryOf? target).isSome) :
    Writes name ⟨nodes, fields⟩ m
      (m.changeFields name fun old => Dictionary.assign old (m.holdAll fields)) := by
  have keys : Dictionary.keys (m.holdAll fields) = Dictionary.keys fields := by
    simp [Dictionary.keys, holdAll, Function.comp_def]
  have filled : Dictionary.assign (m.fieldsAt e.object) (m.holdAll fields) = m.holdAll fields := by
    rw [List.map_eq_nil_iff.mp (congrArg RecordType.fields bare)]
    exact Dictionary.ofList_eq_self (keys ▸ distinct)
  have writes := writes_changeFields sound found
    (fun old => Dictionary.assign old (m.holdAll fields)) ?linked
  case linked =>
    intro key held hmem place inside
    rw [filled] at hmem
    obtain ⟨⟨k, f⟩, hf, same⟩ := List.mem_map.mp hmem
    cases same
    exact holds_of_mem_links_hold (registered key f hf) inside
  have records : e.nodes = nodes := congrArg RecordType.nodes bare
  rw [filled, sound.tellAll_holdAll registered, records] at writes
  exact writes

end
end TypeMemory
end ContentSchema

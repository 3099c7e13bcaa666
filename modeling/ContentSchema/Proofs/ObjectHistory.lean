import ContentSchema.Proofs.RegisteredLinks
import ContentSchema.Proofs.TypeObjects

/-! Sessions over one registry, in which links hold object types. A session does to the registry
what a build does by names, and the object type that a name is registered for never changes. -/
namespace ContentSchema

/-- What is done over one registry. -/
inductive RegistryAction where
  | declare (name : String) (nodes : List Value)
  | recordType (entries : List Value)
  | outputFields (entries : List Value) (selector : Option String) (given : Option Record)
  | next
  | addField (name key : String) (f : OutputField)
  /-- Go on in another context. -/
  | work (context : Build)

namespace Build

/-- Put a field into a registered type. The types that it links to have to be registered; any other
type stands in the field itself. -/
def addField (b : Build) (name key : String) (f : OutputField) : Build :=
  match b.site.registry.get? name with
  | some type =>
    if f.links.all b.site.registry.has then
      b.setRegistry (b.site.registry.put name ⟨type.nodes, Dictionary.put type.fields key f⟩)
    else b
  | none => b

def act (b : Build) : RegistryAction → Build
  | .declare name nodes => match b.site.registry.declare name nodes with
    | .ok (_, registry) => b.setRegistry registry
    | .error _ => b
  | .recordType entries => (b.recordType entries).2
  | .outputFields entries selector given => (b.outputFields entries selector given).2
  | .next => b.next
  | .addField name key f => b.addField name key f
  | .work context => context.setRegistry b.site.registry

end Build

/-- A build whose registry is in memory. -/
structure Session where
  /-- Everything but the registry, which is not looked at here. -/
  context : Build
  memory : TypeMemory
  /-- All fields that were inferred or added so far, each with the object types that it led to. -/
  emitted : List (OutputField × HeldField)

namespace Session

def start (context : Build) : Session := ⟨context, .empty, []⟩

section
variable (s : Session)

def build : Build := s.context.setRegistry s.memory.registry

def emit (fields : Dictionary OutputField) : Session :=
  { s with emitted := s.emitted ++ fields.map fun (_, f) => (f, s.memory.hold f) }

def declare (name : String) (nodes : List Value) : Except AlreadyDefined TypeEntry × Session :=
  match s.memory.declare name nodes with
  | .ok (e, memory) => (.ok e, { s with memory := memory })
  | .error e => (.error e, s)

def outputFields (entries : List Value) (selector : Option String) (given : Option Record) :
    Except NotRecord (Dictionary HeldField) × Session :=
  match s.build.outputFields entries selector given with
  | (.ok fields, b) =>
    (.ok (s.memory.holdAll fields), emit { s with context := b } fields)
  | (.error e, b) => (.error e, { s with context := b })

/-- Claim the name of a type, and make it ready for its fields. -/
def prepare (name : String) (entries : List Value) : Session :=
  { s with
    context := s.context.setNamer (s.context.pass.namer.reserve name)
    memory := s.memory.prepare name entries }

def recordType (entries : List Value) : Except NotRecord String × Session :=
  match typeNameOf entries with
  | .error e => (.error e, s)
  | .ok name =>
    match (s.prepare name entries).outputFields entries none none with
    | (.error e, s) => (.error e, s)
    | (.ok fields, s) => (.ok name, { s with
        memory := s.memory.changeFields name fun old => Dictionary.assign old fields })

def addField (name key : String) (f : OutputField) : Session :=
  if (s.memory.entryOf? name).isSome &&
      f.links.all fun target => (s.memory.entryOf? target).isSome then
    emit { s with
      memory := s.memory.changeFields name fun old => Dictionary.put old key (s.memory.hold f) }
      [(key, f)]
  else s

def act : RegistryAction → Session
  | .declare name nodes => (s.declare name nodes).2
  | .recordType entries => (s.recordType entries).2
  | .outputFields entries selector given => (s.outputFields entries selector given).2
  | .next => { s with context := s.build.next }
  | .addField name key f => s.addField name key f
  | .work context => { s with context := context }

def run (actions : List RegistryAction) : Session := actions.foldl act s

structure Sound : Prop where
  memory : s.memory.Sound
  emitted : ∀ f held, (f, held) ∈ s.emitted → s.memory.Leads f held

end

theorem sound_start (context : Build) : (start context).Sound where
  memory := TypeMemory.sound_empty
  emitted := nofun

/-- The memory has grown, and nothing that was emitted is forgotten. -/
structure Moves (s s' : Session) : Prop where
  grown : s.memory.Extends s'.memory
  emitted : s.emitted <+: s'.emitted
  sound : s'.Sound

variable {s s' s'' : Session}

theorem Moves.refl (sound : s.Sound) : Moves s s where
  grown := .refl _
  emitted := List.prefix_refl _
  sound := sound

theorem Moves.trans (first : Moves s s') (second : Moves s' s'') : Moves s s'' where
  grown := first.grown.trans second.grown
  emitted := first.emitted.trans second.emitted
  sound := second.sound

theorem moves_context (sound : s.Sound) (context : Build) :
    Moves s { s with context := context } where
  grown := .refl _
  emitted := List.prefix_refl _
  sound := ⟨sound.memory, sound.emitted⟩

theorem moves_memory (sound : s.Sound) {memory : TypeMemory} (grown : s.memory.Extends memory)
    (still : memory.Sound) : Moves s { s with memory := memory } where
  grown := grown
  emitted := List.prefix_refl _
  sound := ⟨still, fun f held h => grown.leads (sound.emitted f held h)⟩

theorem moves_emit (sound : s.Sound) {fields : Dictionary OutputField}
    (registered : ∀ key f, (key, f) ∈ fields →
      ∀ target ∈ f.links, (s.memory.entryOf? target).isSome) : Moves s (s.emit fields) where
  grown := .refl _
  emitted := List.prefix_append _ _
  sound := by
    refine ⟨sound.memory, fun f held h => ?_⟩
    rcases List.mem_append.mp h with before | now
    · exact sound.emitted f held before
    · obtain ⟨⟨key, f⟩, hmem, same⟩ := List.mem_map.mp now
      cases same
      exact ⟨rfl, registered key f hmem⟩

theorem moves_write (sound : s.Sound) {name : String} {type : RecordType} {memory : TypeMemory}
    (writes : TypeMemory.Writes name type s.memory memory) : Moves s { s with memory := memory } :=
  moves_memory sound writes.grown writes.sound

theorem build_write {name : String} {type : RecordType} {memory : TypeMemory}
    (writes : TypeMemory.Writes name type s.memory memory) :
    ({ s with memory := memory } : Session).build =
      s.build.setRegistry (s.build.site.registry.put name type) := by
  rw [build, writes.registry]
  rfl

/-- A build that has kept the registry is the one of the session that goes on with it. -/
theorem build_context {b : Build} (same : b.site = s.build.site) :
    ({ s with context := b } : Session).build = b := by
  obtain ⟨⟨store, registry, config⟩, dependencies, now, pass⟩ := b
  cases same
  rfl

/-- The registry of the build shows what stands in the memory. -/
theorem build_get? (s : Session) (name : String) :
    s.build.site.registry.get? name = (s.memory.entryOf? name).map s.memory.shown :=
  TypeMemory.registry_get? s.memory name

/-- A type that has fields is refused. One that is registered without fields stays, and any other is
registered. -/
theorem declare_cases (s : Session) (name : String) (nodes : List Value) :
    (s.memory.entryOf? name = none ∧
      s.declare name nodes = (.ok ⟨name, nodes, s.memory.objects.length⟩,
        { s with memory := s.memory.register name nodes }) ∧
      s.build.site.registry.declare name nodes =
        .ok (⟨nodes, []⟩, s.build.site.registry.put name ⟨nodes, []⟩)) ∨
    ∃ e, s.memory.entryOf? name = some e ∧
      ((s.memory.fieldsAt e.object = [] ∧ s.declare name nodes = (.ok e, s) ∧
          s.build.site.registry.declare name nodes =
            .ok (s.memory.shown e, s.build.site.registry)) ∨
        (s.memory.fieldsAt e.object ≠ [] ∧ s.declare name nodes = (.error ⟨name⟩, s) ∧
          s.build.site.registry.declare name nodes = .error ⟨name⟩)) := by
  have got := s.build_get? name
  cases found : s.memory.entryOf? name with
  | none =>
    rw [found] at got
    refine .inl ⟨rfl, ?_, ?_⟩
    · rw [declare, TypeMemory.declare, found]
    · rw [Registry.declare, got]
      rfl
  | some e =>
    rw [found] at got
    refine .inr ⟨e, rfl, ?_⟩
    have bare : (s.memory.shown e).fields.isEmpty = (s.memory.fieldsAt e.object).isEmpty :=
      List.isEmpty_map
    rw [declare, TypeMemory.declare, found, Registry.declare, got]
    simp only [Option.map_some, bare]
    cases s.memory.fieldsAt e.object with
    | nil => exact .inl ⟨rfl, rfl, rfl⟩
    | cons field rest => exact .inr ⟨List.cons_ne_nil _ _, rfl, rfl⟩

/-- Inference leaves the memory as it is and hands out what it finds. -/
theorem outputFields_cases (s : Session) (entries : List Value) (selector : Option String)
    (given : Option Record) :
    (∃ e b, s.build.outputFields entries selector given = (.error e, b) ∧ b.site = s.build.site ∧
      s.outputFields entries selector given = (.error e, { s with context := b })) ∨
    ∃ fields b, s.build.outputFields entries selector given = (.ok fields, b) ∧
      b.site = s.build.site ∧ (Dictionary.keys fields).Nodup ∧
      (∀ key f, (key, f) ∈ fields → ∀ target ∈ f.links, (s.memory.entryOf? target).isSome) ∧
      s.outputFields entries selector given =
        (.ok (s.memory.holdAll fields), emit { s with context := b } fields) := by
  have inferred := s.build.outputFields_registered entries selector given
  unfold outputFields
  rcases called : s.build.outputFields entries selector given with ⟨e | fields, b⟩
  · rw [called] at inferred
    exact .inl ⟨e, b, rfl, inferred.1, rfl⟩
  · rw [called] at inferred
    obtain ⟨distinct, registered⟩ := inferred.2 fields rfl
    refine .inr ⟨fields, b, rfl, inferred.1, distinct, fun key f hmem target inside => ?_, rfl⟩
    rw [← TypeMemory.registry_has]
    exact registered key f hmem target inside

/-- A session goes on with an action as its build does. -/
structure Steps (a : RegistryAction) (s s' : Session) : Prop where
  moves : Moves s s'
  build : s'.build = s.build.act a

theorem steps_declare (sound : s.Sound) (name : String) (nodes : List Value) :
    Steps (.declare name nodes) s (s.declare name nodes).2 := by
  rcases s.declare_cases name nodes with
    ⟨found, called, built⟩ | ⟨e, found, ⟨_, called, built⟩ | ⟨_, called, built⟩⟩
  · have writes := TypeMemory.writes_register sound.memory found nodes
    rw [called]
    refine ⟨moves_write sound writes, ?_⟩
    rw [build_write writes, Build.act, built]
  · rw [called]
    refine ⟨.refl sound, ?_⟩
    rw [Build.act, built]
    rfl
  · rw [called]
    refine ⟨.refl sound, ?_⟩
    rw [Build.act, built]

theorem steps_outputFields (sound : s.Sound) (entries : List Value) (selector : Option String)
    (given : Option Record) :
    Steps (.outputFields entries selector given) s (s.outputFields entries selector given).2 := by
  rcases s.outputFields_cases entries selector given with
    ⟨e, b, built, same, called⟩ | ⟨fields, b, built, same, _, registered, called⟩
  · have goes := build_context same
    rw [called]
    refine ⟨moves_context sound b, ?_⟩
    rw [Build.act, built]
    exact goes
  · have goes := build_context same
    have moved := moves_context sound b
    rw [called]
    refine ⟨moved.trans (moves_emit moved.sound registered), ?_⟩
    rw [Build.act, built]
    exact goes

/-- A field is added to a registered type when it links to registered types only. -/
theorem addField_cases (s : Session) (name key : String) (f : OutputField) :
    (s.addField name key f = s ∧ s.build.addField name key f = s.build) ∨
    ∃ e, s.memory.entryOf? name = some e ∧
      (∀ target ∈ f.links, (s.memory.entryOf? target).isSome) ∧
      s.addField name key f = emit { s with
        memory := s.memory.changeFields name fun old => Dictionary.put old key (s.memory.hold f) }
        [(key, f)] ∧
      s.build.addField name key f = s.build.setRegistry (s.build.site.registry.put name
        ⟨e.nodes, Dictionary.put (s.memory.shown e).fields key f⟩) := by
  have got := s.build_get? name
  have has : s.build.site.registry.has = fun target => (s.memory.entryOf? target).isSome :=
    funext (TypeMemory.registry_has s.memory)
  cases found : s.memory.entryOf? name with
  | none =>
    rw [found] at got
    refine .inl ⟨?_, ?_⟩
    · rw [addField, found]
      rfl
    · rw [Build.addField, got]
      rfl
  | some e =>
    rw [found] at got
    cases all : f.links.all fun target => (s.memory.entryOf? target).isSome with
    | false =>
      refine .inl ⟨?_, ?_⟩
      · rw [addField, found, all]
        rfl
      · rw [Build.addField, got, has]
        simp only [Option.map_some, all, Bool.false_eq_true, if_false]
    | true =>
      refine .inr ⟨e, rfl, List.all_eq_true.mp all, ?_, ?_⟩
      · rw [addField, found, all]
        rfl
      · rw [Build.addField, got, has]
        simp only [Option.map_some, all, if_true]
        rfl

theorem steps_addField (sound : s.Sound) (name key : String) (f : OutputField) :
    Steps (.addField name key f) s (s.addField name key f) := by
  rcases s.addField_cases name key f with
    ⟨called, built⟩ | ⟨e, found, registered, called, built⟩
  · rw [called]
    exact ⟨.refl sound, built.symm⟩
  · have writes := TypeMemory.writes_changeFields sound.memory found
      (fun old => Dictionary.put old key (s.memory.hold f)) ?linked
    case linked =>
      intro k g hg place inside
      rcases Dictionary.mem_of_mem_put hg with same | old
      · cases same
        exact TypeMemory.holds_of_mem_links_hold registered inside
      · exact sound.memory.holds_of_mem_fieldsAt old inside
    have shows : s.memory.tellAll
        (Dictionary.put (s.memory.fieldsAt e.object) key (s.memory.hold f)) =
          Dictionary.put (s.memory.shown e).fields key f := by
      rw [TypeMemory.tellAll, Dictionary.put_map, sound.memory.tell_hold registered]
      rfl
    rw [shows] at writes
    have written := moves_write sound writes
    rw [called]
    refine ⟨written.trans (moves_emit written.sound ?_), ?_⟩
    · intro k g hg target inside
      cases List.mem_singleton.mp hg
      exact writes.grown.isSome_entryOf? (registered target inside)
    · rw [Build.act, built]
      exact build_write writes

/-- Building a record type writes that type and no other. -/
theorem steps_recordType (sound : s.Sound) (entries : List Value) :
    Steps (.recordType entries) s (s.recordType entries).2 ∧
      ∀ name, typeNameOf entries = .ok name →
        ∃ type, TypeMemory.Writes name type s.memory (s.recordType entries).2.memory := by
  cases typed : typeNameOf entries with
  | error e =>
    have called : s.recordType entries = (.error e, s) := by rw [recordType, typed]
    rw [called]
    refine ⟨⟨.refl sound, ?_⟩, nofun⟩
    rw [Build.act, Build.recordType, typed]
  | ok name =>
    have prepared : TypeMemory.Writes name ⟨entries, []⟩ s.memory (s.prepare name entries).memory :=
      TypeMemory.writes_prepare sound.memory name entries
    have written := moves_write sound prepared
    have ready : Moves s (s.prepare name entries) := written.trans (moves_context written.sound _)
    have declared : (s.prepare name entries).build = s.build.declareType name entries := by
      rw [build, prepared.registry]
      rfl
    rcases (s.prepare name entries).outputFields_cases entries none none with
      ⟨e, b, built, same, called⟩ | ⟨fields, b, built, same, distinct, registered, called⟩
    · have outcome : s.recordType entries =
          (.error e, { s.prepare name entries with context := b }) := by
        rw [recordType, typed]
        simp only [called]
      have goes := build_context same
      rw [outcome]
      refine ⟨⟨ready.trans (moves_context ready.sound b), ?_⟩, fun other h => ?_⟩
      · rw [Build.act, Build.recordType, typed]
        simp only [← declared, built]
        exact goes
      · cases h
        exact ⟨_, prepared⟩
    · obtain ⟨e, found, shows⟩ := prepared.exists_entry
      have writes := TypeMemory.writes_fill prepared.sound found shows distinct registered
      let given : Session := emit { s.prepare name entries with context := b } fields
      have outcome : s.recordType entries = (.ok name, { given with
          memory := given.memory.changeFields name fun old =>
            Dictionary.assign old (given.memory.holdAll fields) }) := by
        rw [recordType, typed]
        simp only [called]
        rfl
      have taken := moves_context ready.sound b
      have handed : Moves s given :=
        (ready.trans taken).trans (moves_emit taken.sound registered)
      have goes : given.build = b := build_context (s := s.prepare name entries) same
      rw [outcome]
      refine ⟨⟨handed.trans (moves_write handed.sound writes), ?_⟩, fun other h => ?_⟩
      · rw [Build.act, Build.recordType, typed]
        simp only [← declared, built]
        rw [← goes]
        exact build_write (s := given) writes
      · cases h
        exact ⟨_, prepared.trans writes⟩

theorem steps_act (sound : s.Sound) (a : RegistryAction) : Steps a s (s.act a) := by
  cases a with
  | declare name nodes => exact steps_declare sound name nodes
  | recordType entries => exact (steps_recordType sound entries).1
  | outputFields entries selector given => exact steps_outputFields sound entries selector given
  | next => exact ⟨moves_context sound s.build.next, rfl⟩
  | addField name key f => exact steps_addField sound name key f
  | work context => exact ⟨moves_context sound context, rfl⟩

theorem moves_run (sound : s.Sound) (actions : List RegistryAction) : Moves s (s.run actions) := by
  induction actions generalizing s with
  | nil => exact .refl sound
  | cons a rest ih =>
    have first := (steps_act sound a).moves
    exact first.trans (ih first.sound)

/-- By names, a session runs as its build does. -/
theorem build_run (sound : s.Sound) (actions : List RegistryAction) :
    (s.run actions).build = actions.foldl Build.act s.build := by
  induction actions generalizing s with
  | nil => rfl
  | cons a rest ih =>
    have first := steps_act sound a
    rw [List.foldl_cons, ← first.build]
    exact ih first.moves.sound

/-- Names stay registered in their order and for the same object types. What was emitted stays. -/
structure Keeps (s s' : Session) : Prop where
  names : s.build.site.registry.names <+: s'.build.site.registry.names
  object : ∀ name e, s.memory.entryOf? name = some e →
    ∃ e', s'.memory.entryOf? name = some e' ∧ e'.object = e.object
  emitted : s.emitted <+: s'.emitted

theorem Moves.keeps (moves : Moves s s') : s.Keeps s' where
  names := by
    change s.memory.registry.names <+: s'.memory.registry.names
    rw [TypeMemory.registry_names, TypeMemory.registry_names]
    exact moves.grown.names
  object := moves.grown.entry
  emitted := moves.emitted

/-- A key, its entry and its object type have one name. Whenever a field was emitted, it still has
the names that it was emitted with, and it leads to the object types that are now registered under
them and of which the registry shows the fields. -/
structure Coherent (s : Session) : Prop where
  named : ∀ key e, s.memory.entryOf? key = some e →
    e.name = key ∧ ∃ o, s.memory.objects[e.object]? = some o ∧ o.name = key
  link : ∀ f held, (f, held) ∈ s.emitted → s.memory.tell held = f ∧
    ∀ place ∈ held.links, ∃ name ∈ f.links, ∃ e, s.memory.entryOf? name = some e ∧
      e.object = place ∧ s.build.site.registry.get? name = some (s.memory.shown e)

theorem Sound.coherent (sound : s.Sound) : s.Coherent where
  named := sound.memory.named
  link := by
    intro f held hmem
    obtain ⟨rfl, registered⟩ := sound.emitted f held hmem
    refine ⟨sound.memory.tell_hold registered, fun place inside => ?_⟩
    rw [TypeMemory.hold, Field.links_rename] at inside
    obtain ⟨name, hname, rfl⟩ := List.mem_map.mp inside
    obtain ⟨e, found⟩ := Option.isSome_iff_exists.mp (registered name hname)
    have got := s.build_get? name
    rw [found] at got
    exact ⟨name, hname, e, found, (TypeMemory.placeOf_eq found).symm, got⟩

/-- Building a record type changes no other entry and no other object type. Declaring a type is
refused exactly when it has a field, and then nothing changes. -/
structure Framed (s : Session) : Prop where
  recordType : ∀ entries name, typeNameOf entries ≠ .ok name →
    (s.recordType entries).2.memory.entryOf? name = s.memory.entryOf? name ∧
      (∀ e, s.memory.entryOf? name = some e →
        (s.recordType entries).2.memory.objects[e.object]? = s.memory.objects[e.object]?) ∧
      (s.build.recordType entries).2.site.registry.get? name = s.build.site.registry.get? name
  refused : ∀ name nodes,
    (∃ error, s.build.site.registry.declare name nodes = .error error) ↔ s.memory.HasFields name
  declare : ∀ name nodes,
    ((∃ error, (s.declare name nodes).1 = .error error) ↔ s.memory.HasFields name) ∧
    ∀ error, (s.declare name nodes).1 = .error error → (s.declare name nodes).2 = s

theorem Sound.framed (sound : s.Sound) : s.Framed where
  recordType := by
    intro entries name other
    have steps := steps_recordType sound entries
    have same : (s.recordType entries).2.memory.registry =
        (s.build.recordType entries).2.site.registry :=
      congrArg (fun b => b.site.registry) steps.1.build
    cases typed : typeNameOf entries with
    | error e =>
      have called : s.recordType entries = (.error e, s) := by rw [Session.recordType, typed]
      have built : s.build.recordType entries = (.error e, s.build) := by
        rw [Build.recordType, typed]
      rw [called, built]
      exact ⟨rfl, fun _ _ => rfl, rfl⟩
    | ok own =>
      obtain ⟨type, writes⟩ := steps.2 own typed
      have apart : name ≠ own := by
        rintro rfl
        exact other typed
      refine ⟨writes.entry name apart, fun e found => writes.object name e apart found, ?_⟩
      rw [← same, writes.registry, Registry.get?, Registry.put, Dictionary.get?_put,
        if_neg (Ne.symm apart)]
      rfl
  refused := by
    intro name nodes
    rcases s.declare_cases name nodes with
      ⟨found, _, built⟩ | ⟨e, found, ⟨bare, _, built⟩ | ⟨filled, _, built⟩⟩ <;>
    simp [TypeMemory.HasFields, *]
  declare := by
    intro name nodes
    rcases s.declare_cases name nodes with
      ⟨found, called, _⟩ | ⟨e, found, ⟨bare, called, _⟩ | ⟨filled, called, _⟩⟩ <;>
    simp [TypeMemory.HasFields, *]

/-- In every session, whatever is done and in whatever contexts: the session does to the registry
what the builds do by names, keeps every name for one object type, has all links lead to the
registered types, and writes one type at a time. -/
theorem run_keeps_objects (context : Build) (before after : List RegistryAction) :
    let s := (start context).run before
    let s' := s.run after
    s.build = before.foldl Build.act (context.setRegistry .empty) ∧
      s'.build = after.foldl Build.act s.build ∧ s.Keeps s' ∧ s'.Coherent ∧ s'.Framed := by
  intro s s'
  have first : Moves (start context) s := moves_run (sound_start context) before
  have second : Moves s s' := moves_run first.sound after
  exact ⟨build_run (sound_start context) before, build_run first.sound after, second.keeps,
    second.sound.coherent, second.sound.framed⟩

/-- A link that was handed out while a type had no fields leads to the object type that has them. -/
example :
    let context := Build.start .empty ⟨[("Post.author", "Author")]⟩ ⟨⟨2020, 1, 10⟩, 0, 0, 0, 0, 0⟩
    let s := (start context).run [.declare "Author" [],
      .outputFields [.mapping [("type", .text "Post")]] none (some [("author", .text "a")]),
      .addField "Author" "name" (.plain (.scalar .string))]
    s.emitted.map (fun (_, held) => held.links) = [[0], []] ∧
      s.memory.fieldsAt 0 = [("name", ⟨.scalar .string, [], none⟩)] :=
  ⟨rfl, rfl⟩

end Session
end ContentSchema

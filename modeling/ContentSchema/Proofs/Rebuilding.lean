import ContentSchema.Proofs.BuildPass

/-! Rebuilding is a fixpoint. Once the types are registered, a pass that follows another one over
the same groups of records finds everything as it is. -/
namespace ContentSchema.Build

/-- The registered names decide what a further pass starts from. -/
private theorem pass_next_of_names {a b : Build}
    (names : a.site.registry.names = b.site.registry.names) :
    a.next.pass = b.next.pass :=
  congrArg (fun names => (⟨names.foldl Namer.reserve .empty, []⟩ : Pass)) names

section
variable {b : Build} {groups : List (List Record)}
  (registered : ∀ group ∈ groups, b.site.registry.has (Record.sharedTypeName group) = true)
include registered

theorem rebuild_eq :
    b.rebuild groups =
      (groups.map fun group => .ok (Record.sharedTypeName group),
        b.leave ⟨b.site.registry.types.assign (b.site.inferredAll groups b.next.pass).1⟩
          (b.site.inferredAll groups b.next.pass).2) :=
  recordTypes_eq (b := b.next) registered

/-- Records always get a record type. -/
theorem outcomes_rebuild :
    (b.rebuild groups).1 = groups.map fun group => .ok (Record.sharedTypeName group) :=
  congrArg Prod.fst (rebuild_eq registered)

theorem names_rebuild : (b.rebuild groups).2.site.registry.names = b.site.registry.names :=
  names_recordTypes (b := b.next) registered

/-- A pass leaves a site that agrees with the one it started from. -/
theorem agrees_rebuild : (b.rebuild groups).2.site.Agrees b.site where
  store := by rw [rebuild_eq registered]; rfl
  config := by rw [rebuild_eq registered]; rfl
  convention := by rw [rebuild_eq registered]; rfl
  registered := Registry.has_eq_of_names (names_rebuild registered)

end

/-- A second pass over the same groups, in the same order, gives every type the records and fields
that it has, hands out the same names and leaves the same warnings. -/
theorem rebuild_rebuild (b : Build) (groups : List (List Record))
    (registered : ∀ group ∈ groups, b.site.registry.has (Record.sharedTypeName group) = true)
    (distinct : (groups.map Record.sharedTypeName).Nodup) :
    let first := b.rebuild groups
    let second := first.2.rebuild groups
    first.1 = (groups.map fun group => .ok (Record.sharedTypeName group)) ∧ second.1 = first.1 ∧
      first.2.site.registry.names = b.site.registry.names ∧
      (∀ group ∈ groups, ∃ fields,
        first.2.site.registry.get? (Record.sharedTypeName group) =
          some ⟨group.map Value.mapping, fields⟩) ∧
      second.2 = first.2 := by
  intro first second
  have agrees : first.2.site.Agrees b.site := agrees_rebuild registered
  have again : ∀ group ∈ groups,
      first.2.site.registry.has (Record.sharedTypeName group) = true :=
    fun group hgroup => (agrees.registered _).trans (registered group hgroup)
  have start : first.2.next.pass = b.next.pass := pass_next_of_names (names_rebuild registered)
  let found := b.site.inferredAll groups b.next.pass
  have firstEq : first = (groups.map fun group => .ok (Record.sharedTypeName group),
      b.leave ⟨b.site.registry.types.assign found.1⟩ found.2) := rebuild_eq registered
  have secondEq : second = (groups.map fun group => .ok (Record.sharedTypeName group),
      first.2.leave ⟨first.2.site.registry.types.assign found.1⟩ found.2) := by
    have run := rebuild_eq again
    rw [agrees.inferredAll_eq, start] at run
    exact run
  have keys : Dictionary.keys found.1 = groups.map Record.sharedTypeName :=
    Site.keys_inferredAll b.site groups b.next.pass
  have kept : ∀ name type, (name, type) ∈ found.1 →
      first.2.site.registry.get? name = some type := by
    intro name type hmem
    rw [firstEq]
    change Dictionary.get? (Dictionary.assign _ found.1) name = _
    rw [Dictionary.get?_assign (keys ▸ distinct),
      Dictionary.get?_eq_of_mem (keys ▸ distinct) hmem, Option.some_or]
  refine ⟨outcomes_rebuild registered, by rw [secondEq, firstEq], names_rebuild registered, ?_, ?_⟩
  · intro group hgroup
    obtain ⟨type, hmem, hnodes⟩ := Site.mem_inferredAll b.site b.next.pass hgroup
    refine ⟨type.fields, ?_⟩
    rw [kept _ type hmem, hnodes]
  · rw [secondEq]
    have same : first.2.site.registry.types.assign found.1 = first.2.site.registry.types :=
      Dictionary.assign_eq_self kept
    rw [same, firstEq]
    rfl

/-- Authors and articles, which are linked in both directions. Each has an object of its own. -/
private def authors : List Record :=
  [[("id", .text "a"), ("type", .text "Author"), ("latest___NODE", .text "p"),
    ("meta", .mapping [("city", .text "Oslo")])]]

private def articles : List Record :=
  [[("id", .text "p"), ("type", .text "Article"), ("author", .text "a"),
    ("meta", .mapping [("tags", .list [.text "x"])]), ("lost___NODE", .text "q")]]

/-- Both types are registered already, in one order, and built twice in the other. -/
theorem rebuild_rebuild_linked_both_ways :
    let b := (((start .empty ⟨[("Article.author", "Author")]⟩
      ⟨⟨2020, 1, 10⟩, 0, 0, 0, 0, 0⟩).declareType "Author" []).declareType "Article" [])
    let groups := [articles, authors]
    (∀ group ∈ groups, b.site.registry.has (Record.sharedTypeName group) = true) ∧
      (groups.map Record.sharedTypeName).Nodup ∧
      ((b.rebuild groups).2.rebuild groups).2 = (b.rebuild groups).2 := by
  intro b groups
  have registered : ∀ group ∈ groups,
      b.site.registry.has (Record.sharedTypeName group) = true := by
    simp only [groups, List.forall_mem_cons]
    exact ⟨rfl, rfl, nofun⟩
  have distinct : (groups.map Record.sharedTypeName).Nodup := by
    change ["Article", "Author"].Nodup
    decide
  exact ⟨registered, distinct, (rebuild_rebuild b groups registered distinct).2.2.2.2⟩

end ContentSchema.Build

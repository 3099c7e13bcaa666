import ContentSchema.Path
import ContentSchema.Proofs.SeparatedTexts

/-! Paths with slashes of both kinds. A path is made normal once with forward slashes only, and once
more when all slashes are alike. The answer is that of one kind of slash unless a step up between
forward slashes takes away a segment with a backslash, or the path comes to begin with one. -/
namespace ContentSchema.Path

def isSlash (c : Char) : Bool := c == '/' || c == '\\'

/-- The pieces of a text between slashes of either kind. -/
def pieces (text : List Char) : List (List Char) := text.splitOnP isSlash

/-- The segments that remain of a walk from the root. -/
def walk (segments : List (List Char)) : List (List Char) := (segments.foldl enter []).reverse

/-- The absolute path of a path relative to a directory, with no difference between slashes. -/
def resolveAlike (directory relative : String) : String :=
  String.ofList ('/' :: ['/'].intercalate
    (walk (pieces directory.toList ++ pieces relative.toList)))

/-- What stands between forward slashes, first in the directory and then in the path. -/
def written (directory relative : String) : List (List Char) :=
  directory.toList.splitOnP (· == '/') ++ relative.toList.splitOnP (· == '/')

/-- The segments that steps up take away on a walk from a stack of segments. -/
def steppedOver : (stack segments : List (List Char)) → List (List Char)
  | _, [] => []
  | stack, s :: rest =>
    (if s = ['.', '.'] then stack.take 1 else []) ++ steppedOver (enter stack s) rest

/-- A slash at the beginning, of either kind, and no other one after it. -/
def opensWithOneSlash : List Char → Bool
  | [] => false
  | c :: rest => isSlash c && !rest.head?.any isSlash

/-! ### Walks -/

theorem enter_nil (stack : List (List Char)) : enter stack [] = stack := rfl

/-- A segment that is neither empty nor made of one or two dots. -/
def IsName (s : List Char) : Prop := s ≠ [] ∧ s ≠ ['.'] ∧ s ≠ ['.', '.']

theorem enter_of_isName {s : List Char} (name : IsName s) (stack : List (List Char)) :
    enter stack s = s :: stack := by
  rw [enter, if_neg (not_or.mpr ⟨name.1, name.2.1⟩), if_neg name.2.2]

/-- What a segment does to a stack. -/
theorem enter_cases (s : List Char) :
    (s = [] ∨ s = ['.']) ∧ (∀ stack, enter stack s = stack) ∨
      s = ['.', '.'] ∧ (∀ stack, enter stack s = stack.drop 1) ∨
      IsName s ∧ ∀ stack, enter stack s = s :: stack := by
  by_cases skipped : s = [] ∨ s = ['.']
  · exact Or.inl ⟨skipped, fun stack => if_pos skipped⟩
  · by_cases up : s = ['.', '.']
    · subst up
      exact Or.inr (Or.inl ⟨rfl, fun _ => rfl⟩)
    · rw [not_or] at skipped
      have name : IsName s := ⟨skipped.1, skipped.2, up⟩
      exact Or.inr (Or.inr ⟨name, enter_of_isName name⟩)

theorem mem_enter {s t : List Char} {stack : List (List Char)} (h : t ∈ enter stack s) :
    t ∈ stack ∨ t = s ∧ IsName s := by
  rcases enter_cases s with ⟨_, same⟩ | ⟨_, up⟩ | ⟨name, pushed⟩
  · exact Or.inl (same stack ▸ h)
  · exact Or.inl (List.mem_of_mem_drop (up stack ▸ h))
  · rw [pushed] at h
    exact (List.mem_cons.mp h).symm.imp id fun own => ⟨own, name⟩

theorem mem_foldl_enter {t : List Char} {segments stack : List (List Char)}
    (h : t ∈ segments.foldl enter stack) : t ∈ stack ∨ t ∈ segments ∧ IsName t := by
  induction segments generalizing stack with
  | nil => exact Or.inl h
  | cons s rest ih =>
    rcases ih h with before | ⟨later, name⟩
    · rcases mem_enter before with old | ⟨rfl, name⟩
      · exact Or.inl old
      · exact Or.inr ⟨List.mem_cons_self, name⟩
    · exact Or.inr ⟨List.mem_cons_of_mem _ later, name⟩

/-- What remains of a walk are names among its segments. -/
theorem mem_walk {t : List Char} {segments : List (List Char)} (h : t ∈ walk segments) :
    t ∈ segments ∧ IsName t :=
  (mem_foldl_enter (List.mem_reverse.mp h)).resolve_left List.not_mem_nil

/-! ### Texts and their segments -/

theorem pieces_append_slash (a b : List Char) : pieces (a ++ '/' :: b) = pieces a ++ pieces b :=
  List.splitOnP_append_cons a b rfl

/-- Backslashes that are made forward slashes separate like these. -/
theorem splitOnP_slashed (text : List Char) :
    (slashed text).splitOnP (· == '/') = pieces text := by
  induction text with
  | nil => rfl
  | cons c text ih =>
    unfold slashed pieces at ih ⊢
    rw [List.map_cons, List.splitOnP_cons_eq_if_modifyHead, List.splitOnP_cons_eq_if_modifyHead, ih]
    by_cases back : c = '\\'
    · subst back
      rfl
    · have same : (if (c == '\\') = true then '/' else c) = c := if_neg (by simpa using back)
      have slash : isSlash c = (c == '/') := by simp [isSlash, back]
      rw [same, slash]

/-- The pieces of a text are those of its segments. -/
theorem pieces_eq_flatMap (text : List Char) :
    pieces text = (text.splitOnP (· == '/')).flatMap pieces := by
  induction text with
  | nil => rfl
  | cons c text ih =>
    obtain ⟨first, rest, split⟩ :=
      List.exists_cons_of_ne_nil (List.splitOnP_ne_nil (· == '/') text)
    rw [List.splitOnP_cons_eq_if_modifyHead, split]
    rw [split, List.flatMap_cons] at ih
    by_cases forward : c = '/'
    · subst forward
      exact congrArg ([] :: ·) ih
    · have other : ¬ (c == '/') = true := by simpa using forward
      rw [if_neg other, List.modifyHead_cons, List.flatMap_cons]
      unfold pieces at ih ⊢
      rw [List.splitOnP_cons_eq_if_modifyHead, List.splitOnP_cons_eq_if_modifyHead, ih]
      split
      · rfl
      · obtain ⟨piece, more, inner⟩ :=
          List.exists_cons_of_ne_nil (List.splitOnP_ne_nil isSlash first)
        rw [inner]
        rfl

theorem walk_pieces_intercalate (segments : List (List Char)) :
    walk (pieces (['/'].intercalate segments)) = walk (segments.flatMap pieces) := by
  have joined (first : List Char) (rest : List (List Char)) :
      pieces (['/'].intercalate (first :: rest)) = (first :: rest).flatMap pieces := by
    induction rest generalizing first with
    | nil => simp
    | cons second rest ih =>
      rw [List.intercalate_cons_cons, List.append_assoc, List.singleton_append,
        pieces_append_slash, ih]
      rfl
  cases segments with
  | nil => rfl
  | cons first rest => rw [joined]

/-- Names without a slash can be read back from the path that they make. -/
theorem intercalate_inj {a b : List (List Char)} (ha : ∀ s ∈ a, IsName s ∧ '/' ∉ s)
    (hb : ∀ s ∈ b, IsName s ∧ '/' ∉ s) : ['/'].intercalate a = ['/'].intercalate b ↔ a = b := by
  have begins {first : List Char} {rest : List (List Char)} (name : IsName first) :
      ['/'].intercalate (first :: rest) ≠ [] := by
    cases rest with
    | nil => simpa using name.1
    | cons second rest => simp [List.intercalate_cons_cons]
  cases a with
  | nil =>
    cases b with
    | nil => simp
    | cons t b => exact iff_of_false (begins (hb t List.mem_cons_self).1).symm nofun
  | cons s a =>
    cases b with
    | nil => exact iff_of_false (begins (ha s List.mem_cons_self).1) nofun
    | cons t b =>
      exact Text.intercalate_inj (fun s hs => (ha s hs).2) (fun t ht => (hb t ht).2) nofun nofun

/-! ### Resolution -/

/-- One forward slash at the beginning, and no other one after it. -/
def IsRooted (directory : String) : Prop :=
  ∃ rest, directory.toList = '/' :: rest ∧ rest.head? ≠ some '/'

/-- The segments of a path as it is written, once they are walked along. -/
private theorem segments_join {d r : List Char} (nonempty : d ≠ []) (isRelative : r.head? ≠ some '/') :
    segments (join d r) = walk (d.splitOnP (· == '/') ++ r.splitOnP (· == '/')) := by
  rw [join, if_neg isRelative]
  split
  · rename_i closed
    have closed : d.getLast? = some '/' := by simpa [nonempty] using closed
    obtain ⟨start, rfl⟩ := List.getLast?_eq_some_iff.mp closed
    rw [segments, List.append_assoc, List.singleton_append, List.splitOnP_append_cons _ _ rfl,
      List.splitOnP_append_cons _ _ rfl, walk]
    simp [enter_nil]
  · rw [segments, List.splitOnP_append_cons _ _ rfl, walk]

theorem root_cons {rest : List Char} (single : rest.head? ≠ some '/') :
    root ('/' :: rest) = ['/'] := by
  cases rest with
  | nil => rfl
  | cons c rest =>
    have other : c ≠ '/' := fun same => single (congrArg some same)
    simp [root, other]

private theorem root_join {d r : List Char} (single : d.head? ≠ some '/')
    (isRelative : r.head? ≠ some '/') : root (join ('/' :: d) r) = ['/'] := by
  rw [join, if_neg isRelative]
  cases d with
  | nil => exact root_cons isRelative
  | cons c d => split <;> exact root_cons single

theorem slashed_cons (c : Char) (text : List Char) :
    slashed (c :: text) = (if isSlash c then '/' else c) :: slashed text := by
  by_cases forward : c = '/'
  · subst forward
    rfl
  · simp [slashed, isSlash, forward]

theorem ne_slash_of_isSlash_eq_false {c : Char} (h : isSlash c = false) : c ≠ '/' := by
  rintro rfl
  cases h

/-- Two slashes at the beginning are kept, and one or more than two become one. -/
private theorem root_slashed {text : List Char} (single : text.head? ≠ some '/') :
    root ('/' :: slashed text) = if opensWithOneSlash text then ['/', '/'] else ['/'] := by
  cases text with
  | nil => rfl
  | cons c text =>
    rw [slashed_cons, opensWithOneSlash]
    cases first : isSlash c with
    | false =>
      have other := ne_slash_of_isSlash_eq_false first
      simp [root, other]
    | true =>
      cases text with
      | nil => rfl
      | cons d text =>
        rw [slashed_cons, List.head?_cons, Option.any_some]
        cases second : isSlash d with
        | false =>
          have other := ne_slash_of_isSlash_eq_false second
          simp [root, other]
        | true => rfl

section
variable {directory relative : String}

/-- What is left between forward slashes are names without any. -/
theorem mem_walk_written {s : List Char} (h : s ∈ walk (written directory relative)) :
    IsName s ∧ '/' ∉ s := by
  obtain ⟨mem, name⟩ := mem_walk h
  refine ⟨name, fun slash => ?_⟩
  rcases List.mem_append.mp mem with mem | mem
  · cases Text.not_of_mem_splitOnP mem _ slash
  · cases Text.not_of_mem_splitOnP mem _ slash

private theorem head?_intercalate_ne {segments : List (List Char)}
    (names : ∀ s ∈ segments, IsName s ∧ '/' ∉ s) :
    (['/'].intercalate segments).head? ≠ some '/' := by
  have own (first : List Char) (name : IsName first ∧ '/' ∉ first) (more : List Char) :
      (first ++ more).head? ≠ some '/' := by
    obtain ⟨c, rest, rfl⟩ := List.exists_cons_of_ne_nil name.1.1
    intro slash
    exact name.2 (Option.some.inj slash ▸ List.mem_cons_self)
  cases segments with
  | nil => exact nofun
  | cons first rest =>
    have name := names first List.mem_cons_self
    cases rest with
    | nil => simpa using own first name []
    | cons second rest =>
      rw [List.intercalate_cons_cons, List.append_assoc]
      exact own first name _

/-- The path that comes out: what steps up leave over, between forward slashes, is taken apart at
backslashes and walked along once more. -/
theorem resolve_eq (rooted : IsRooted directory) (isRelative : relative.toList.head? ≠ some '/') :
    let kept := walk (written directory relative)
    resolve directory relative = String.ofList
      ((if opensWithOneSlash (['/'].intercalate kept) then ['/', '/'] else ['/']) ++
        ['/'].intercalate (walk (kept.flatMap pieces))) := by
  intro kept
  obtain ⟨rest, spelled, single⟩ := rooted
  have start : root (join directory.toList relative.toList) = ['/'] := by
    rw [spelled]
    exact root_join single isRelative
  have first : normal (join directory.toList relative.toList) = '/' :: ['/'].intercalate kept := by
    rw [normal, segments_join (by simp [spelled]) isRelative, start]
    rfl
  have begins : root (slashed ('/' :: ['/'].intercalate kept)) = _ :=
    root_slashed (head?_intercalate_ne fun _ => mem_walk_written)
  have second : segments (slashed ('/' :: ['/'].intercalate kept)) = walk (kept.flatMap pieces) := by
    rw [segments, splitOnP_slashed, ← walk_pieces_intercalate]
    rfl
  rw [resolve, first, normal, begins, second]

theorem resolveAlike_eq : resolveAlike directory relative = String.ofList
    ('/' :: ['/'].intercalate (walk ((written directory relative).flatMap pieces))) := by
  rw [resolveAlike, written, List.flatMap_append, ← pieces_eq_flatMap, ← pieces_eq_flatMap]

/-- What is left when all slashes are alike are names without any. -/
theorem mem_walk_flatMap_pieces {s : List Char} {segments : List (List Char)}
    (h : s ∈ walk (segments.flatMap pieces)) : IsName s ∧ '/' ∉ s := by
  obtain ⟨mem, name⟩ := mem_walk h
  obtain ⟨_, _, mem⟩ := List.mem_flatMap.mp mem
  refine ⟨name, fun slash => ?_⟩
  cases Text.not_of_mem_splitOnP mem _ slash

end

/-- Steps up that take away segments without a backslash take away one piece each. The induction
goes along the segments: what is left of them, once taken apart, leads where all of them lead. -/
private theorem foldl_enter_flatMap_pieces {segments stack : List (List Char)}
    (forward : ∀ s ∈ segments, '/' ∉ s) (named : ∀ t ∈ stack, IsName t ∧ '/' ∉ t)
    (plain : ∀ t ∈ steppedOver stack segments, '\\' ∉ t) :
    (segments.flatMap pieces).foldl enter ((stack.reverse.flatMap pieces).foldl enter []) =
      ((segments.foldl enter stack).reverse.flatMap pieces).foldl enter [] := by
  induction segments generalizing stack with
  | nil => rfl
  | cons s rest ih =>
    obtain ⟨own, forward⟩ := List.forall_mem_cons.mp forward
    rw [steppedOver, List.forall_mem_append] at plain
    rw [List.flatMap_cons, List.foldl_append, List.foldl_cons]
    have named' : ∀ t ∈ enter stack s, IsName t ∧ '/' ∉ t := by
      intro t ht
      rcases mem_enter ht with old | ⟨rfl, name⟩
      · exact named t old
      · exact ⟨name, own⟩
    rw [← ih forward named' plain.2]
    refine congrArg (fun stack => (rest.flatMap pieces).foldl enter stack) ?_
    rcases enter_cases s with ⟨skipped, same⟩ | ⟨rfl, up⟩ | ⟨_, pushed⟩
    · rw [same]
      rcases skipped with rfl | rfl <;> rfl
    · rw [up]
      cases stack with
      | nil => rfl
      | cons t stack =>
        have noBackslash : '\\' ∉ t := plain.1 t (by simp)
        obtain ⟨name, noSlash⟩ := named t List.mem_cons_self
        have whole : pieces t = [t] := by
          refine List.splitOnP_eq_singleton fun c hc => Bool.eq_false_iff.mpr fun slash => ?_
          rcases (by simpa [isSlash] using slash : c = '/' ∨ c = '\\') with rfl | rfl
          · exact noSlash hc
          · exact noBackslash hc
        rw [List.reverse_cons, List.flatMap_append, List.foldl_append, List.flatMap_singleton, whole]
        change enter (enter _ t) ['.', '.'] = _
        rw [enter_of_isName name]
        rfl
    · rw [pushed, List.reverse_cons, List.flatMap_append, List.foldl_append, List.flatMap_singleton]

/-- The answer is that of one kind of slash exactly when what steps up leave over, between forward
slashes, does not begin with a single backslash, and leads where all that is written leads. It does
so when no step up takes away a segment with a backslash. -/
theorem resolve_eq_resolveAlike_iff {directory relative : String} (rooted : IsRooted directory)
    (isRelative : relative.toList.head? ≠ some '/') :
    let kept := walk (written directory relative)
    (resolve directory relative = resolveAlike directory relative ↔
      opensWithOneSlash (['/'].intercalate kept) = false ∧
        walk (kept.flatMap pieces) = walk ((written directory relative).flatMap pieces)) ∧
    ((∀ s ∈ steppedOver [] (written directory relative), '\\' ∉ s) →
      walk (kept.flatMap pieces) = walk ((written directory relative).flatMap pieces)) := by
  intro kept
  constructor
  · rw [resolve_eq rooted isRelative, resolveAlike_eq, String.ofList_inj]
    have inj := intercalate_inj
      (a := walk (kept.flatMap pieces)) (b := walk ((written directory relative).flatMap pieces))
      (fun _ => mem_walk_flatMap_pieces) (fun _ => mem_walk_flatMap_pieces)
    cases opens : opensWithOneSlash (['/'].intercalate kept) with
    | false => simpa [opens, kept] using inj
    | true =>
      refine iff_of_false (fun same => ?_) (fun h => Bool.noConfusion h.1)
      have begins := (List.cons.inj same).2
      have head : (['/'].intercalate (walk ((written directory relative).flatMap pieces))).head? =
          some '/' := by
        rw [← begins]
        rfl
      exact head?_intercalate_ne (fun _ => mem_walk_flatMap_pieces) head
  · intro plain
    have forward : ∀ s ∈ written directory relative, '/' ∉ s := by
      intro s hs slash
      rcases List.mem_append.mp hs with mem | mem <;> cases Text.not_of_mem_splitOnP mem _ slash
    have start : ∀ t ∈ ([] : List (List Char)), IsName t ∧ '/' ∉ t := nofun
    have same := foldl_enter_flatMap_pieces forward start plain
    exact congrArg List.reverse same.symm

private theorem isRooted_posts : IsRooted "/site/posts" := ⟨_, rfl, by decide⟩

/-- A path with slashes of both kinds, in which the step up is followed by a backslash. -/
theorem resolve_eq_resolveAlike_images :
    IsRooted "/site/posts" ∧ "..\\images/a.png".toList.head? ≠ some '/' ∧
      resolve "/site/posts" "..\\images/a.png" = resolveAlike "/site/posts" "..\\images/a.png" ∧
      resolveAlike "/site/posts" "..\\images/a.png" = "/site/images/a.png" := by
  have isRelative : "..\\images/a.png".toList.head? ≠ some '/' := by decide
  obtain ⟨alike, leads⟩ := resolve_eq_resolveAlike_iff isRooted_posts isRelative
  exact ⟨isRooted_posts, isRelative, alike.mpr ⟨by decide +kernel, leads (by decide +kernel)⟩,
    by decide +kernel⟩

/-- A step up that takes away two pieces at once, and a path that comes to begin with two
slashes. -/
theorem resolve_ne_resolveAlike :
    (IsRooted "/site/posts" ∧ resolve "/site/posts" "img\\2019/../a.png" = "/site/posts/a.png" ∧
      resolveAlike "/site/posts" "img\\2019/../a.png" = "/site/posts/img/a.png") ∧
    IsRooted "/" ∧ resolve "/" "./\\a.png" = "//a.png" ∧
      resolveAlike "/" "./\\a.png" = "/a.png" := by
  refine ⟨⟨isRooted_posts, ?_⟩, ⟨_, rfl, by decide⟩, ?_⟩
  · decide +kernel
  · decide +kernel

end ContentSchema.Path

import ContentSchema.Json.Reader
import ContentSchema.Proofs.DictionaryEntries

/-! What reading leaves of JSON text. No object holds a key twice, at any depth, and only a long
whole number stops the reading of a text otherwise than by being malformed. -/
namespace ContentSchema.Json

namespace Tree

/-- The keys that data holds itself. -/
def ownKeys : Tree → List Points
  | .object fields => Dictionary.keys fields
  | _ => []

/-- The data that stands right below. -/
def children : Tree → List Tree
  | .array items => items
  | .object fields => Dictionary.values fields
  | _ => []

/-- No object holds a key twice, at any depth. -/
inductive KeysApart : Tree → Prop
  | intro {t : Tree} (own : t.ownKeys.Nodup) (below : ∀ c ∈ t.children, KeysApart c) : KeysApart t

theorem KeysApart.own {t : Tree} (h : t.KeysApart) : t.ownKeys.Nodup := by
  cases h with
  | intro own _ => exact own

theorem KeysApart.child {t : Tree} (h : t.KeysApart) : ∀ c ∈ t.children, c.KeysApart := by
  cases h with
  | intro _ below => exact below

theorem keysApart_of_childless {t : Tree} (keys : t.ownKeys = []) (children : t.children = []) :
    t.KeysApart := by
  refine ⟨keys ▸ List.nodup_nil, ?_⟩
  rw [children]
  exact nofun

theorem KeysApart.cons {items : List Tree} {v : Tree} (h : (Tree.array items).KeysApart)
    (hv : v.KeysApart) : (Tree.array (v :: items)).KeysApart :=
  ⟨List.nodup_nil, List.forall_mem_cons.mpr ⟨hv, h.child⟩⟩

theorem KeysApart.reverse {items : List Tree} (h : (Tree.array items).KeysApart) :
    (Tree.array items.reverse).KeysApart :=
  ⟨List.nodup_nil, fun c hc => h.child c (List.mem_reverse.mp hc)⟩

theorem KeysApart.put {fields : Dictionary Tree Points} {v : Tree}
    (h : (Tree.object fields).KeysApart) (hv : v.KeysApart) (key : Points) :
    (Tree.object (Dictionary.put fields key v)).KeysApart := by
  refine ⟨Dictionary.nodup_keys_put h.own key v, fun c hc => ?_⟩
  obtain ⟨entry, mem, rfl⟩ := List.mem_map.mp hc
  rcases Dictionary.mem_of_mem_put mem with rfl | old
  · exact hv
  · exact h.child _ (List.mem_map_of_mem old)

end Tree

/-! ### The state of a reading -/

/-- What an unfinished container holds so far. -/
def Frame.content : Frame → Tree
  | .array items => .array items
  | .object fields _ => .object fields

/-- All that was read before a state. -/
def State.held : State → List Tree
  | .value outer | .arrayStart outer | .objectStart outer => outer.map Frame.content
  | .key fields outer | .colon fields _ outer => .object fields :: outer.map Frame.content
  | .after v outer => v :: outer.map Frame.content

def State.KeysApart (s : State) : Prop := ∀ t ∈ s.held, t.KeysApart

/-- All that a step of a reading can do. -/
inductive Steps : State → Token → Except ReadError State → Prop
  | value {outer : List Frame} {t : Token} {r : Except ReadError State} (starts : Starts outer t r) :
      Steps (.value outer) t r
  | emptyArray (outer : List Frame) :
      Steps (.arrayStart outer) .closeBracket (.ok (.after (.array []) outer))
  | firstItem {outer : List Frame} {t : Token} {r : Except ReadError State}
      (starts : Starts (.array [] :: outer) t r) : Steps (.arrayStart outer) t r
  | emptyObject (outer : List Frame) :
      Steps (.objectStart outer) .closeBrace (.ok (.after (.object []) outer))
  | firstKey (k : Points) (outer : List Frame) :
      Steps (.objectStart outer) (.text k) (.ok (.colon [] k outer))
  | nextKey (fields : Dictionary Tree Points) (k : Points) (outer : List Frame) :
      Steps (.key fields outer) (.text k) (.ok (.colon fields k outer))
  | colon (fields : Dictionary Tree Points) (k : Points) (outer : List Frame) :
      Steps (.colon fields k outer) .colon (.ok (.value (.object fields k :: outer)))
  | nextItem (v : Tree) (items : List Tree) (outer : List Frame) :
      Steps (.after v (.array items :: outer)) .comma (.ok (.value (.array (v :: items) :: outer)))
  | lastItem (v : Tree) (items : List Tree) (outer : List Frame) :
      Steps (.after v (.array items :: outer)) .closeBracket
        (.ok (.after (.array (v :: items).reverse) outer))
  | nextMember (v : Tree) (fields : Dictionary Tree Points) (k : Points) (outer : List Frame) :
      Steps (.after v (.object fields k :: outer)) .comma
        (.ok (.key (Dictionary.put fields k v) outer))
  | lastMember (v : Tree) (fields : Dictionary Tree Points) (k : Points) (outer : List Frame) :
      Steps (.after v (.object fields k :: outer)) .closeBrace
        (.ok (.after (.object (Dictionary.put fields k v)) outer))
  | malformed (s : State) (t : Token) : Steps s t (.error .malformed)

theorem steps_step (s : State) (t : Token) : Steps s t (step s t) := by
  unfold step
  split
  · exact .value (starts_startValue _ _)
  · exact .emptyArray _
  · exact .firstItem (starts_startValue _ _)
  · exact .emptyObject _
  · exact .firstKey _ _
  · exact .nextKey _ _ _
  · exact .colon _ _ _
  · exact .nextItem _ _ _
  · exact .lastItem _ _ _
  · exact .nextMember _ _ _ _
  · exact .lastMember _ _ _ _
  · exact .malformed _ _

/-- An element that holds no object. -/
def Token.IsPlain (t : Token) : Prop := ∀ v, t = .scalar v → v.ownKeys = [] ∧ v.children = []

theorem keysApart_cons {v : Tree} {held : List Tree} (own : v.KeysApart)
    (others : ∀ t ∈ held, t.KeysApart) : ∀ t ∈ v :: held, t.KeysApart :=
  List.forall_mem_cons.mpr ⟨own, others⟩

theorem apart_of_after {v : Tree} {f : Frame} {outer : List Frame}
    (apart : (State.after v (f :: outer)).KeysApart) :
    v.KeysApart ∧ f.content.KeysApart ∧ ∀ t ∈ outer.map Frame.content, t.KeysApart := by
  obtain ⟨own, others⟩ := List.forall_mem_cons.mp apart
  exact ⟨own, List.forall_mem_cons.mp others⟩

theorem keysApart_of_starts {outer : List Frame} {t : Token} {s : State} (plain : t.IsPlain)
    (apart : (State.value outer).KeysApart) (h : Starts outer t (.ok s)) : s.KeysApart := by
  cases h with
  | object => exact apart
  | array => exact apart
  | text s => exact keysApart_cons (Tree.keysApart_of_childless rfl rfl) apart
  | whole _ _ n => exact keysApart_cons (Tree.keysApart_of_childless rfl rfl) apart
  | scalar v => exact keysApart_cons (Tree.keysApart_of_childless (plain v rfl).1 (plain v rfl).2) apart

/-- One step keeps keys apart, in what is finished and in what is not. -/
theorem keysApart_of_step {s s' : State} {t : Token} (plain : t.IsPlain) (apart : s.KeysApart)
    (h : step s t = .ok s') : s'.KeysApart := by
  have steps := h ▸ steps_step s t
  cases steps with
  | value starts => exact keysApart_of_starts plain apart starts
  | @firstItem outer _ _ starts =>
    have opened : (State.value (.array [] :: outer)).KeysApart :=
      keysApart_cons (Tree.keysApart_of_childless rfl rfl) apart
    exact keysApart_of_starts plain opened starts
  | emptyArray outer => exact keysApart_cons (Tree.keysApart_of_childless rfl rfl) apart
  | emptyObject outer => exact keysApart_cons (Tree.keysApart_of_childless rfl rfl) apart
  | firstKey k outer => exact keysApart_cons (Tree.keysApart_of_childless rfl rfl) apart
  | nextKey fields k outer => exact apart
  | colon fields k outer => exact apart
  | nextItem v items outer =>
    obtain ⟨own, array, apart⟩ := apart_of_after apart
    exact keysApart_cons (array.cons own) apart
  | lastItem v items outer =>
    obtain ⟨own, array, apart⟩ := apart_of_after apart
    exact keysApart_cons (array.cons own).reverse apart
  | nextMember v fields k outer =>
    obtain ⟨own, object, apart⟩ := apart_of_after apart
    exact keysApart_cons (object.put own k) apart
  | lastMember v fields k outer =>
    obtain ⟨own, object, apart⟩ := apart_of_after apart
    exact keysApart_cons (object.put own k) apart

theorem keysApart_of_foldlM {ts : List Token} {s s' : State} (plain : ∀ t ∈ ts, t.IsPlain)
    (apart : s.KeysApart) (h : ts.foldlM step s = .ok s') : s'.KeysApart := by
  induction ts generalizing s with
  | nil =>
    cases h
    exact apart
  | cons t ts ih =>
    obtain ⟨own, others⟩ := List.forall_mem_cons.mp plain
    rw [List.foldlM_cons] at h
    cases first : step s t with
    | error e =>
      rw [first] at h
      cases h
    | ok middle =>
      rw [first] at h
      exact ih others (keysApart_of_step own apart first) h

/-! ### Elements and texts -/

theorem exists_scanToken_of_mem {t : Token} {room : Nat} {cs : List Char}
    (h : t ∈ tokensWithin room cs) : t = .bad ∨ ∃ cs rest, scanToken cs = some (t, rest) := by
  induction room generalizing cs with
  | zero => cases h
  | succ room ih =>
    rw [tokensWithin] at h
    split at h
    · cases h
    · split at h
      · rename_i scanned
        rcases List.mem_cons.mp h with rfl | later
        · exact Or.inr ⟨_, _, scanned⟩
        · exact ih later
      · exact Or.inl (List.mem_singleton.mp h)

theorem isPlain_of_mem_tokens {t : Token} {cs : List Char} (h : t ∈ tokens cs) : t.IsPlain := by
  rintro v rfl
  obtain bad | ⟨_, _, scanned⟩ := exists_scanToken_of_mem h
  · cases bad
  · obtain word | ⟨x, rfl⟩ := scanToken_eq_scalar scanned
    · have leaves : ∀ v ∈ words.map Prod.snd, v.ownKeys = [] ∧ v.children = [] := by
        simp [words, Tree.ownKeys, Tree.children]
      exact leaves v word
    · exact ⟨rfl, rfl⟩

theorem read_eq_ok_iff {text : String} {v : Tree} :
    read text = .ok v ↔ (tokens text.toList).foldlM step (.value []) = .ok (.after v []) := by
  unfold read
  cases (tokens text.toList).foldlM step (.value []) with
  | error e => exact iff_of_false nofun nofun
  | ok s =>
    cases s with
    | after t outer =>
      cases outer with
      | nil => simp [bind, Except.bind, pure, Except.pure]
      | cons f outer => exact iff_of_false nofun nofun
    | _ => exact iff_of_false nofun nofun

/-- No object that is read holds a key twice. -/
theorem keysApart_of_read {text : String} {v : Tree} (h : read text = .ok v) : v.KeysApart := by
  have start : (State.value []).KeysApart := nofun
  have held := keysApart_of_foldlM (fun _ => isPlain_of_mem_tokens) start (read_eq_ok_iff.mp h)
  exact held v List.mem_cons_self

/-- The whole numbers of a text have no more digits than can be read. -/
def wholesReadable (text : String) : Bool :=
  (tokens text.toList).all fun
    | .whole _ digits => digits.length ≤ digitLimit
    | _ => true

theorem exists_long_of_step {s : State} {t : Token} {digits : Nat}
    (h : step s t = .error (.wholeTooLong digits)) :
    ∃ negative run, t = .whole negative run ∧ digitLimit < run.length := by
  have steps := h ▸ steps_step s t
  cases steps with
  | value starts =>
    cases starts with
    | tooLong negative long => exact ⟨negative, _, rfl, long⟩
  | firstItem starts =>
    cases starts with
    | tooLong negative long => exact ⟨negative, _, rfl, long⟩

theorem exists_long_of_foldlM {ts : List Token} {s : State} {digits : Nat}
    (h : ts.foldlM step s = .error (.wholeTooLong digits)) :
    ∃ negative run, Token.whole negative run ∈ ts ∧ digitLimit < run.length := by
  induction ts generalizing s with
  | nil => cases h
  | cons t ts ih =>
    rw [List.foldlM_cons] at h
    cases first : step s t with
    | error e =>
      rw [first] at h
      cases h
      obtain ⟨negative, run, rfl, long⟩ := exists_long_of_step first
      exact ⟨negative, run, List.mem_cons_self, long⟩
    | ok middle =>
      rw [first] at h
      obtain ⟨negative, run, later, long⟩ := ih h
      exact ⟨negative, run, List.mem_cons_of_mem t later, long⟩

/-- A text whose whole numbers can be read is read, or it is malformed. -/
theorem read_ne_wholeTooLong {text : String} (short : wholesReadable text = true) (digits : Nat) :
    read text ≠ .error (.wholeTooLong digits) := by
  intro stopped
  unfold read at stopped
  cases run : (tokens text.toList).foldlM step (.value []) with
  | error e =>
    rw [run] at stopped
    cases stopped
    obtain ⟨negative, whole, mem, long⟩ := exists_long_of_foldlM run
    have fits := List.all_eq_true.mp short _ mem
    exact absurd long (Nat.not_lt.mpr (of_decide_eq_true fits))
  | ok s =>
    rw [run] at stopped
    cases s with
    | after t outer => cases outer <;> cases stopped
    | _ => cases stopped

end ContentSchema.Json

import ContentSchema.Proofs.FilterPositions
import ContentSchema.Proofs.OutputPositions

/-! Keys that selectors show as they are. Where all keys are such, generated names tell positions
apart. -/
namespace ContentSchema

/-- The characters that stand between keys in the text of a path. -/
def isSeparator (c : Char) : Bool := c == '.' || c == '['

namespace PathStep

/-- A key is plain when it has characters, and no separator among them. -/
def IsPlain : PathStep → Prop
  | .key name => name ≠ "" ∧ ∀ c ∈ name.toList, isSeparator c = false
  | .element => True

def isKey : PathStep → Bool
  | .key _ => true
  | .element => false

/-- How the text of a path shows a step. -/
def text : PathStep → List Char
  | .key name => '.' :: name.toList
  | .element => ['[', ']']

end PathStep

/-- A plain key ends where the next step begins. -/
private theorem takeWhile_append_texts {name : List Char} (path : List PathStep)
    (plain : ∀ c ∈ name, isSeparator c = false) :
    (name ++ path.flatMap PathStep.text).takeWhile (fun c => !isSeparator c) = name := by
  have rest : (path.flatMap PathStep.text).takeWhile (fun c => !isSeparator c) = [] := by
    cases path with
    | nil => rfl
    | cons step path => cases step <;> rfl
  rw [List.takeWhile_append_of_pos, rest, List.append_nil]
  intro c hc
  rw [plain c hc]
  rfl

/-- Plain steps can be read back from their texts. -/
theorem eq_of_texts_eq {p q : List PathStep} (hp : ∀ step ∈ p, step.IsPlain)
    (hq : ∀ step ∈ q, step.IsPlain) (h : p.flatMap PathStep.text = q.flatMap PathStep.text) :
    p = q := by
  induction p generalizing q with
  | nil =>
    cases q with
    | nil => rfl
    | cons step q => cases step <;> cases h
  | cons step p ih =>
    cases q with
    | nil => cases step <;> cases h
    | cons other q =>
      obtain ⟨plain, restPlain⟩ := List.forall_mem_cons.mp hp
      obtain ⟨plain', restPlain'⟩ := List.forall_mem_cons.mp hq
      rw [List.flatMap_cons, List.flatMap_cons] at h
      cases step with
      | key name =>
        cases other with
        | key name' =>
          have texts : name.toList ++ p.flatMap PathStep.text =
              name'.toList ++ q.flatMap PathStep.text := (List.cons.inj h).2
          have names := congrArg (List.takeWhile fun c => !isSeparator c) texts
          rw [takeWhile_append_texts p plain.2, takeWhile_append_texts q plain'.2] at names
          rw [names] at texts
          rw [String.toList_inj.mp names, ih restPlain restPlain' (List.append_cancel_left texts)]
        | element => cases h
      | element =>
        cases other with
        | key name' => cases h
        | element => rw [ih restPlain restPlain' (List.append_cancel_left h)]

namespace FilterFields

theorem toList_pathAt (path : String) (steps : List PathStep) :
    (pathAt path steps).toList = path.toList ++ steps.flatMap PathStep.text := by
  induction steps generalizing path with
  | nil => simp [pathAt]
  | cons step steps ih =>
    cases step with
    | key name => simp [pathAt, ih, PathStep.text]
    | element => simp [pathAt, ih, PathStep.text]

theorem pathAt_inj_of_plain {path : String} {p q : List PathStep} (hp : ∀ step ∈ p, step.IsPlain)
    (hq : ∀ step ∈ q, step.IsPlain) : pathAt path p = pathAt path q ↔ p = q := by
  constructor
  · intro h
    have texts := congrArg String.toList h
    rw [toList_pathAt, toList_pathAt] at texts
    exact eq_of_texts_eq hp hq (List.append_cancel_left texts)
  · rintro rfl
    rfl

end FilterFields

namespace OutputFields

theorem toList_selectorAt {selector : String} (nonempty : selector ≠ "") {path : List PathStep} :
    (selectorAt selector path).toList =
      selector.toList ++ (path.filter PathStep.isKey).flatMap PathStep.text := by
  induction path generalizing selector with
  | nil => simp [selectorAt]
  | cons step path ih =>
    cases step with
    | key name =>
      have child : childSelector selector name = selector ++ "." ++ name := by
        rw [childSelector, if_neg]
        simpa using nonempty
      have nonempty' : childSelector selector name ≠ "" := by
        rw [child]
        intro h
        simpa using congrArg String.length h
      rw [selectorAt, ih nonempty', child]
      simp [List.filter_cons, PathStep.isKey, PathStep.text]
    | element =>
      rw [selectorAt, ih nonempty]
      rfl

/-- Positions of one selector have the same keys. At the root of a record the first key has no
separator before it. -/
theorem keys_eq_of_selectorAt_eq {selector : String} {fields : Dictionary OutputField}
    {p q : List PathStep} {a b : String} (hp : ObjectBelow fields p a) (hq : ObjectBelow fields q b)
    (plainP : ∀ step ∈ p, step.IsPlain) (plainQ : ∀ step ∈ q, step.IsPlain)
    (h : selectorAt selector p = selectorAt selector q) :
    p.filter PathStep.isKey = q.filter PathStep.isKey := by
  apply eq_of_texts_eq
  · exact fun step hstep => plainP step (List.mem_of_mem_filter hstep)
  · exact fun step hstep => plainQ step (List.mem_of_mem_filter hstep)
  · have chars := congrArg String.toList h
    by_cases root : selector = ""
    · subst root
      obtain ⟨key, _, p, rfl, _, _⟩ := hp
      obtain ⟨key', _, q, rfl, _, _⟩ := hq
      have nonempty : key ≠ "" := (plainP _ List.mem_cons_self).1
      have nonempty' : key' ≠ "" := (plainQ _ List.mem_cons_self).1
      change (selectorAt key p).toList = (selectorAt key' q).toList at chars
      rw [toList_selectorAt nonempty, toList_selectorAt nonempty'] at chars
      exact congrArg ('.' :: ·) chars
    · rw [toList_selectorAt root, toList_selectorAt root] at chars
      exact List.append_cancel_left chars

/-- In one type the keys on the way to an object tell its position. -/
theorem ObjectAt.eq_of_keys_eq {t : LinkedType} {p q : List PathStep} {a b : String}
    (hp : ObjectAt t p a) (hq : ObjectAt t q b)
    (h : p.filter PathStep.isKey = q.filter PathStep.isKey) : p = q := by
  induction hp generalizing q with
  | here =>
    cases hq with
    | here => rfl
    | key found deeper => cases h
  | element deeper ih =>
    cases hq with
    | element deeper' => rw [ih deeper' h]
  | key found deeper ih =>
    cases hq with
    | here => cases h
    | key found' deeper' =>
      obtain ⟨hkey, hrest⟩ := List.cons.inj h
      cases hkey
      cases found.symm.trans found'
      rw [ih deeper' hrest]

theorem ObjectBelow.eq_of_keys_eq {fields : Dictionary OutputField} {p q : List PathStep}
    {a b : String} (hp : ObjectBelow fields p a) (hq : ObjectBelow fields q b)
    (h : p.filter PathStep.isKey = q.filter PathStep.isKey) : p = q := by
  obtain ⟨key, f, p, rfl, found, position⟩ := hp
  obtain ⟨key', g, q, rfl, found', position'⟩ := hq
  obtain ⟨hkey, hrest⟩ := List.cons.inj h
  cases hkey
  cases found.symm.trans found'
  rw [position.eq_of_keys_eq position' hrest]

/-- Where keys are plain, no two object types of a result share a name. -/
theorem position_eq_of_name_eq (site : Site) (typeName : String) (selector : Option String)
    (fields : Record) {pass : Pass} (faithful : pass.namer.Faithful) {p q : List PathStep}
    {name : String} (hp : ObjectBelow (ofExample site typeName selector fields pass).1 p name)
    (hq : ObjectBelow (ofExample site typeName selector fields pass).1 q name)
    (plainP : ∀ step ∈ p, step.IsPlain) (plainQ : ∀ step ∈ q, step.IsPlain) : p = q := by
  have selectors :=
    (name_eq_iff_selectorAt_eq site typeName selector fields faithful hp hq).mp rfl
  exact hp.eq_of_keys_eq hq (keys_eq_of_selectorAt_eq hp hq plainP plainQ selectors)

end OutputFields

/-- Where keys are plain, no two filter inputs of a result share a name. -/
theorem FilterFields.position_eq_of_name_eq (records : List Record) (place : Place)
    (given : Option Record) (path : Option String) {n : Namer} (faithful : n.Faithful) :
    ∃ filters after, ofEntries (records.map Value.mapping) place given path n =
        (.ok filters, after) ∧
      ∀ p q name f g, FilterBelow filters p name f → FilterBelow filters q name g →
        (∀ step ∈ p, step.IsPlain) → (∀ step ∈ q, step.IsPlain) → p = q := by
  obtain ⟨filters, after, start, heq, later, named⟩ :=
    answer?_of_filterBelow records place given path faithful
  refine ⟨filters, after, heq, fun p q name f g hp hq plainP plainQ => ?_⟩
  have selectors := (later.answer?_eq_iff (named p name f hp) (named q name g hq)).mp rfl
  obtain ⟨paths, _⟩ := (append_ending_inj f g).mp selectors
  exact (pathAt_inj_of_plain plainP plainQ).mp ((String.append_right_inj start).mp paths)

end ContentSchema

import ContentSchema.Value.Equality

/-! Values as keys. Two of them are alike exactly when they stand for the same. -/
namespace ContentSchema

/-- What a key stands for. Numbers of all kinds stand for one quantity. -/
inductive KeyForm where
  | null
  | number (q : Quantity)
  | nan (mark : Nat)
  | text (s : String)
  | bytes (content : List UInt8)
  | foreign (name : String) (mark : Nat)
  | tuple (members : List KeyForm)

theorem Quantity.same_iff {p : Quantity} (defined : p ≠ .undefined) (q : Quantity) :
    p.same q = true ↔ p = q := by
  cases p with
  | exact p => cases q <;> simp [Quantity.same]
  | infinite p => cases q <;> simp [Quantity.same]
  | undefined => exact absurd rfl defined

theorem Binary64.quantity_ne_undefined {x : Binary64} (h : ∀ mark, x ≠ .nan mark) :
    x.quantity ≠ .undefined := by
  cases x with
  | finite negative m e => simp [Binary64.quantity, Binary64.toRat?]
  | infinity negative => simp [Binary64.quantity]
  | nan mark => exact absurd rfl (h mark)

namespace Value

mutual
/-- What a value stands for as a key, if it can be one. -/
def keyForm? : Value → Option KeyForm
  | .null => some .null
  | .bool b => some (.number (.exact (if b then 1 else 0)))
  | .int n => some (.number (.exact n))
  | .float (.nan mark) => some (.nan mark)
  | .float x => some (.number x.quantity)
  | .text s => some (.text s)
  | .bytes content => some (.bytes content)
  | .foreign name mark => some (.foreign name mark)
  | .tuple items => (keyForms? items).map .tuple
  | .list _ => none
  | .mapping _ => none
def keyForms? : List Value → Option (List KeyForm)
  | [] => some []
  | v :: rest => match keyForm? v, keyForms? rest with
    | some k, some ks => some (k :: ks)
    | _, _ => none
end

mutual
/-- Exactly the hashable values stand for something. -/
theorem isSome_keyForm? : ∀ v : Value, v.keyForm?.isSome = v.isHashable
  | .null | .bool _ | .int _ | .float (.nan _) | .float (.infinity _) | .float (.finite ..)
  | .text _ | .bytes _ | .foreign _ _ | .list _ | .mapping _ => rfl
  | .tuple items => by
    rw [keyForm?, isHashable, Option.isSome_map]
    exact isSome_keyForms? items
theorem isSome_keyForms? : ∀ vs : List Value, (keyForms? vs).isSome = allHashable vs
  | [] => rfl
  | v :: rest => by
    rw [keyForms?, allHashable, ← isSome_keyForm? v, ← isSome_keyForms? rest]
    cases v.keyForm? <;> cases keyForms? rest <;> rfl
end

theorem some_eq_keyForm?_tuple_iff {k : KeyForm} {items : List Value} :
    some k = (Value.tuple items).keyForm? ↔
      ∃ members, keyForms? items = some members ∧ .tuple members = k := by
  rw [keyForm?, eq_comm, Option.map_eq_some_iff]

/-- A number that is undefined. -/
def isNaN : Value → Bool
  | .float (.nan _) => true
  | _ => false

/-- Only two NaN can be alike without being equal. -/
private theorem alike_eq_same_of_defined {a b : Value} (defined : (a.isNaN && b.isNaN) = false) :
    a.alike b = a.same b := by
  have other : a.isSameNaN b = false := by
    unfold isSameNaN
    split
    · cases defined
    · rfl
  rw [alike, other, Bool.false_or]

theorem alike_eq_same {a : Value} (defined : a.isNaN = false) (b : Value) :
    a.alike b = a.same b :=
  alike_eq_same_of_defined (by rw [defined, Bool.false_and])

theorem alike_eq_same_of_right {b : Value} (defined : b.isNaN = false) (a : Value) :
    a.alike b = a.same b :=
  alike_eq_same_of_defined (by rw [defined, Bool.and_false])

theorem same_of_quantity? {a : Value} {p : Quantity} (h : a.quantity? = some p) (b : Value) :
    a.same b = match b.quantity? with
      | some q => p.same q
      | none => false := by
  cases a with
  | bool x => cases h; cases b <;> simp [same, quantity?]
  | int x => cases h; cases b <;> simp [same, quantity?]
  | float x => cases h; cases b <;> simp [same, quantity?]
  | _ => cases h

theorem keyForm?_eq_number_iff {q : Quantity} (defined : q ≠ .undefined) (b : Value) :
    some (KeyForm.number q) = b.keyForm? ↔ some q = b.quantity? := by
  cases b with
  | bool x => simp [keyForm?, quantity?]
  | int x => simp [keyForm?, quantity?]
  | float x =>
    cases x with
    | nan mark => simp [keyForm?, quantity?, Binary64.quantity, defined]
    | _ => simp [keyForm?, quantity?]
  | tuple items => simp [some_eq_keyForm?_tuple_iff, quantity?]
  | _ => simp [keyForm?, quantity?]

private theorem alike_number {a : Value} {p : Quantity} (h : a.quantity? = some p)
    (defined : p ≠ .undefined) (b : Value) : a.alike b = true ↔ some (.number p) = b.keyForm? := by
  have notNaN : a.isNaN = false := by
    cases a with
    | float x =>
      cases x with
      | nan mark =>
        cases h
        exact absurd rfl defined
      | _ => rfl
    | _ => rfl
  rw [alike_eq_same notNaN, same_of_quantity? h, keyForm?_eq_number_iff defined]
  cases b.quantity? with
  | none => simp
  | some q => simp [Quantity.same_iff defined]

private theorem alike_nan (mark : Nat) (b : Value) :
    (Value.float (.nan mark)).alike b = true ↔ some (.nan mark) = b.keyForm? := by
  rw [alike, same_of_quantity? rfl]
  cases b with
  | float x => cases x <;> simp [isSameNaN, quantity?, keyForm?, Binary64.quantity, Quantity.same]
  | tuple items => simp [some_eq_keyForm?_tuple_iff, isSameNaN, quantity?]
  | _ => simp [isSameNaN, quantity?, keyForm?, Binary64.quantity, Quantity.same]

/-- Values that are neither numbers nor containers. -/
private theorem alike_atom {a : Value} (hashable : a.isHashable = true)
    (noNumber : a.quantity? = none) (noSequence : a.items? = none) (b : Value) :
    a.alike b = true ↔ a.keyForm? = b.keyForm? := by
  cases b with
  | float x =>
    cases x <;> cases a <;>
      simp_all [alike, isSameNaN, same, quantity?, keyForm?, items?, isHashable]
  | tuple items =>
    have unlike : a.keyForm? ≠ (Value.tuple items).keyForm? := by
      intro heq
      obtain ⟨k, hk⟩ := Option.isSome_iff_exists.mp ((isSome_keyForm? a).trans hashable)
      obtain ⟨members, _, rfl⟩ := some_eq_keyForm?_tuple_iff.mp (hk.symm.trans heq)
      cases a <;> simp_all [keyForm?, quantity?, items?]
    cases a <;> simp_all [alike, isSameNaN, same, quantity?, items?, isHashable]
  | _ =>
    cases a <;> simp_all [alike, isSameNaN, same, quantity?, keyForm?, items?, isHashable]

mutual
theorem alike_iff : ∀ (a b : Value) {k : KeyForm}, a.keyForm? = some k →
    (a.alike b = true ↔ some k = b.keyForm?)
  | .bool x, b, k, h => by
    cases h
    exact alike_number rfl (by simp) b
  | .int x, b, k, h => by
    cases h
    exact alike_number rfl (by simp) b
  | .float (.nan mark), b, k, h => by
    cases h
    exact alike_nan mark b
  | .float (.finite negative m e), b, k, h => by
    cases h
    exact alike_number rfl (Binary64.quantity_ne_undefined (by simp)) b
  | .float (.infinity negative), b, k, h => by
    cases h
    exact alike_number rfl (Binary64.quantity_ne_undefined (by simp)) b
  | .null, b, k, h => by
    rw [← h]
    exact alike_atom rfl rfl rfl b
  | .text s, b, k, h => by
    rw [← h]
    exact alike_atom rfl rfl rfl b
  | .bytes s, b, k, h => by
    rw [← h]
    exact alike_atom rfl rfl rfl b
  | .foreign s m, b, k, h => by
    rw [← h]
    exact alike_atom rfl rfl rfl b
  | .tuple items, b, k, h => by
    obtain ⟨members, hm, rfl⟩ := Option.map_eq_some_iff.mp h
    cases b with
    | tuple others =>
      have inner := sameItems_iff items others hm
      simp only [alike, isSameNaN, same, Bool.false_or, inner, keyForm?]
      cases keyForms? others <;> simp
    | float x => cases x <;> simp [alike, isSameNaN, same, quantity?, keyForm?]
    | _ => simp [alike, isSameNaN, same, quantity?, keyForm?]
theorem sameItems_iff : ∀ (as bs : List Value) {ks : List KeyForm}, keyForms? as = some ks →
    (sameItems as bs = true ↔ some ks = keyForms? bs)
  | [], bs, ks, h => by
    cases h
    cases bs with
    | nil => simp [sameItems, keyForms?]
    | cons b bs =>
      simp only [sameItems, keyForms?]
      cases keyForm? b <;> cases keyForms? bs <;> simp
  | a :: as, bs, ks, h => by
    rw [keyForms?] at h
    cases ha : keyForm? a with
    | none => simp [ha] at h
    | some k =>
      cases has : keyForms? as with
      | none => simp [ha, has] at h
      | some rest =>
        simp only [ha, has, Option.some.injEq] at h
        subst h
        cases bs with
        | nil => simp [sameItems, keyForms?]
        | cons b bs =>
          have head := alike_iff a b ha
          have tail := sameItems_iff as bs has
          unfold alike at head
          rw [sameItems, Bool.and_eq_true, head, tail, keyForms?]
          cases keyForm? b <;> cases keyForms? bs <;> simp
end

section
variable {a b : Value} (hashable : a.isHashable = true)
include hashable

/-- A possible key is alike to what stands for the same, and to nothing else. -/
theorem alike_iff_keyForm?_eq : a.alike b = true ↔ a.keyForm? = b.keyForm? := by
  obtain ⟨k, hk⟩ := Option.isSome_iff_exists.mp ((isSome_keyForm? a).trans hashable)
  rw [hk]
  exact alike_iff a b hk

theorem alike_refl : a.alike a = true := (alike_iff_keyForm?_eq hashable).mpr rfl

theorem isHashable_of_alike (h : a.alike b = true) : b.isHashable = true := by
  rw [← isSome_keyForm?, ← (alike_iff_keyForm?_eq hashable).mp h, isSome_keyForm?, hashable]

theorem alike_symm (h : a.alike b = true) : b.alike a = true :=
  (alike_iff_keyForm?_eq (isHashable_of_alike hashable h)).mpr
    ((alike_iff_keyForm?_eq hashable).mp h).symm

/-- Values that are alike are alike to the same values. -/
theorem alike_congr (h : a.alike b = true) (c : Value) : a.alike c = b.alike c := by
  rw [Bool.eq_iff_iff, alike_iff_keyForm?_eq hashable,
    alike_iff_keyForm?_eq (isHashable_of_alike hashable h), (alike_iff_keyForm?_eq hashable).mp h]

end

theorem isNull_eq_of_alike {a b : Value} (h : a.alike b = true) : a.isNull = b.isNull := by
  cases a with
  | null => cases b <;> simp_all [alike, isSameNaN, same, quantity?, isNull]
  | _ =>
    cases b with
    | null => simp [alike, isSameNaN, same, quantity?] at h
    | _ => rfl

end Value
end ContentSchema

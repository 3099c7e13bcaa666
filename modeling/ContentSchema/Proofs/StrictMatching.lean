import ContentSchema.Calendar.Reading
import ContentSchema.Proofs.DecimalDigits

/-! The texts that a layout of pieces matches, and what is read off them. -/
namespace ContentSchema.Calendar
open Text

/-- How an offset from universal time is written. -/
inductive ZoneText where
  | universal (capital : Bool)
  | shifted (west separated : Bool) (hours minutes : Fin (10 ^ 2))

namespace ZoneText

/-- Hours and minutes. -/
def shiftText (separated : Bool) (hours minutes : Fin (10 ^ 2)) : List Char :=
  lastDigits 2 hours ++ ((if separated then [':'] else []) ++ lastDigits 2 minutes)

def shift (hours minutes : Fin (10 ^ 2)) : Int := hours * 3600 + minutes * 60

def text : ZoneText → List Char
  | universal capital => [if capital then 'Z' else 'z']
  | shifted west separated hours minutes =>
    (if west then '-' else '+') :: shiftText separated hours minutes

/-- The offset in seconds, east of the meridian positive. -/
def seconds : ZoneText → Int
  | universal _ => 0
  | shifted west _ hours minutes => if west then -shift hours minutes else shift hours minutes

end ZoneText

/-- A text in the digits of ASCII that has the layout of some pieces, and the numbers in it. -/
inductive Spelled : List Piece → Reading → List Char → Prop where
  | nil : Spelled [] [] []
  | exactly {pieces : List Piece} {r : Reading} {cs : List Char} (c : Char)
      (rest : Spelled pieces r cs) : Spelled (.exactly c :: pieces) r (c :: cs)
  | digits {pieces : List Piece} {r : Reading} {cs : List Char} (component : Component)
      {count : Nat} (n : Fin (10 ^ count)) (rest : Spelled pieces r cs) :
      Spelled (.digits component count :: pieces) ((component, (n : Int)) :: r)
        (lastDigits count n ++ cs)
  | offset {pieces : List Piece} {r : Reading} {cs : List Char} (zone : ZoneText)
      (rest : Spelled pieces r cs) :
      Spelled (.offset :: pieces) ((.offset, zone.seconds) :: r) (zone.text ++ cs)

theorem takeNumber?_eq_some_iff {count n : Nat} {cs rest : List Char} :
    takeNumber? count cs = some (n, rest) ↔
      n < 10 ^ count ∧ ∃ front, cs = front ++ rest ∧ front.map western = lastDigits count n := by
  rw [takeNumber?]
  constructor
  · intro taken
    split at taken
    · cases taken
    · rename_i enough
      obtain ⟨m, read, pair⟩ := Option.map_eq_some_iff.mp taken
      obtain ⟨rfl, rfl⟩ := Prod.mk.inj pair
      have width : (cs.take count).length = count :=
        List.length_take_of_le (Nat.le_of_not_lt enough)
      obtain ⟨fits, digits⟩ := number?_eq_some_iff.mp read
      rw [width] at fits digits
      exact ⟨fits, cs.take count, (List.take_append_drop count cs).symm, digits⟩
  · rintro ⟨fits, front, rfl, digits⟩
    have width : front.length = count := by
      have lengths := congrArg List.length digits
      rwa [List.length_map, length_lastDigits] at lengths
    subst width
    rw [if_neg (by simp), List.take_left, List.drop_left, number?_eq_some_iff.mpr ⟨fits, digits⟩,
      Option.map_some]

theorem takeNumber?_append {count : Nat} {front : List Char} (rest : List Char)
    (n : Fin (10 ^ count)) (h : front.map western = lastDigits count n) :
    takeNumber? count (front ++ rest) = some (n.val, rest) :=
  takeNumber?_eq_some_iff.mpr ⟨n.isLt, front, rfl, h⟩

/-- Digits do not start with a colon. -/
theorem afterColon_append {n : Nat} {front : List Char} (rest : List Char)
    (h : front.map western = lastDigits 2 n) : afterColon (front ++ rest) = front ++ rest := by
  obtain ⟨c, tail, rfl, first, -⟩ := List.map_eq_cons_iff.mp h
  have digit := (western_eq_digitChar_iff (Nat.mod_lt _ (by decide))).mp first
  have noColon : digitValue? ':' = none := by decide
  unfold afterColon
  split
  · rename_i colon
    rw [(List.cons.inj colon).1, noColon] at digit
    cases digit
  · rfl

theorem takeShift?_eq_some_iff {seconds : Int} {cs rest : List Char} :
    takeShift? cs = some (seconds, rest) ↔
      ∃ separated hours minutes, seconds = ZoneText.shift hours minutes ∧
        ∃ front, cs = front ++ rest ∧
          front.map western = ZoneText.shiftText separated hours minutes := by
  simp only [takeShift?, bind, Option.bind_eq_some_iff, Prod.exists, pure, Option.some.injEq,
    Prod.mk.injEq]
  constructor
  · rintro ⟨hours, mid, first, minutes, rest, second, rfl, rfl⟩
    obtain ⟨fits, front, rfl, digits⟩ := takeNumber?_eq_some_iff.mp first
    obtain ⟨fitsToo, back, split, digitsToo⟩ := takeNumber?_eq_some_iff.mp second
    unfold afterColon at split
    split at split
    · subst split
      refine ⟨true, ⟨hours, fits⟩, ⟨minutes, fitsToo⟩, rfl, front ++ ':' :: back, by simp, ?_⟩
      rw [List.map_append, List.map_cons, digits, digitsToo]
      rfl
    · subst split
      refine ⟨false, ⟨hours, fits⟩, ⟨minutes, fitsToo⟩, rfl, front ++ back, by simp, ?_⟩
      rw [List.map_append, digits, digitsToo]
      rfl
  · rintro ⟨separated, hours, minutes, rfl, front, rfl, same⟩
    obtain ⟨first, tail, rfl, digits, same⟩ := List.map_eq_append_iff.mp same
    cases separated with
    | false =>
      refine ⟨hours, tail ++ rest, ?_, minutes, rest, ?_, rfl, rfl⟩
      · rw [List.append_assoc, takeNumber?_append _ hours digits]
      · rw [afterColon_append _ same, takeNumber?_append _ minutes same]
    | true =>
      obtain ⟨c, second, rfl, colon, digitsToo⟩ := List.map_eq_cons_iff.mp same
      obtain rfl := (western_eq_iff (by decide)).mp colon
      refine ⟨hours, (':' :: second) ++ rest, ?_, minutes, rest, ?_, rfl, rfl⟩
      · rw [List.append_assoc, takeNumber?_append _ hours digits]
      · exact takeNumber?_append _ minutes digitsToo

theorem takeOffset?_eq_some_iff {seconds : Int} {cs rest : List Char} :
    takeOffset? cs = some (seconds, rest) ↔
      ∃ zone : ZoneText, seconds = zone.seconds ∧
        ∃ front, cs = front ++ rest ∧ front.map western = zone.text := by
  constructor
  · intro taken
    unfold takeOffset? at taken
    split at taken
    · cases taken
      exact ⟨.universal true, rfl, ['Z'], rfl, by decide⟩
    · cases taken
      exact ⟨.universal false, rfl, ['z'], rfl, by decide⟩
    · obtain ⟨separated, hours, minutes, rfl, front, rfl, same⟩ := takeShift?_eq_some_iff.mp taken
      exact ⟨.shifted false separated hours minutes, rfl, '+' :: front, rfl, congrArg _ same⟩
    · obtain ⟨⟨total, rest⟩, shift, pair⟩ := Option.map_eq_some_iff.mp taken
      obtain ⟨rfl, rfl⟩ := Prod.mk.inj pair
      obtain ⟨separated, hours, minutes, rfl, front, rfl, same⟩ := takeShift?_eq_some_iff.mp shift
      exact ⟨.shifted true separated hours minutes, rfl, '-' :: front, rfl, congrArg _ same⟩
    · cases taken
  · rintro ⟨zone, rfl, front, rfl, same⟩
    cases zone with
    | universal capital =>
      obtain ⟨c, tail, rfl, isZ, nil⟩ := List.map_eq_cons_iff.mp same
      obtain rfl := List.map_eq_nil_iff.mp nil
      cases capital with
      | true =>
        obtain rfl := (western_eq_iff (by decide)).mp isZ
        rfl
      | false =>
        obtain rfl := (western_eq_iff (by decide)).mp isZ
        rfl
    | shifted west separated hours minutes =>
      obtain ⟨c, tail, rfl, sign, same⟩ := List.map_eq_cons_iff.mp same
      have shift : takeShift? (tail ++ rest) = some (ZoneText.shift hours minutes, rest) :=
        takeShift?_eq_some_iff.mpr ⟨separated, hours, minutes, rfl, tail, rfl, same⟩
      cases west with
      | false =>
        obtain rfl := (western_eq_iff (by decide)).mp sign
        exact shift
      | true =>
        obtain rfl := (western_eq_iff (by decide)).mp sign
        exact Option.map_eq_some_iff.mpr ⟨_, shift, rfl⟩

/-- No literal character of the pieces is a digit. -/
def literalsPlain (pieces : List Piece) : Bool :=
  pieces.all fun
    | .exactly c => (digitValue? c).isNone
    | _ => true

theorem literalsPlain_exactly {c : Char} {pieces : List Piece} :
    literalsPlain (.exactly c :: pieces) = true ↔
      digitValue? c = none ∧ literalsPlain pieces = true := by
  simp [literalsPlain]

theorem ZoneText.map_western_text (zone : ZoneText) : zone.text.map western = zone.text := by
  cases zone with
  | universal capital => cases capital <;> decide
  | shifted west separated hours minutes =>
    rw [text, shiftText, List.map_cons, List.map_append, List.map_append, map_western_lastDigits,
      map_western_lastDigits]
    cases west <;> cases separated <;> rfl

theorem Spelled.map_western {pieces : List Piece} {r : Reading} {cs : List Char}
    (spelled : Spelled pieces r cs) (plain : literalsPlain pieces = true) :
    cs.map western = cs := by
  induction spelled with
  | nil => rfl
  | exactly c _ ih =>
    obtain ⟨noDigit, plain⟩ := literalsPlain_exactly.mp plain
    rw [List.map_cons, western_of_no_digit noDigit, ih plain]
  | digits component n _ ih => rw [List.map_append, map_western_lastDigits, ih plain]
  | offset zone _ ih => rw [List.map_append, zone.map_western_text, ih plain]

/-- A layout matches exactly the texts that have it, in the digits of any script. -/
theorem matchPieces?_eq_some_iff {pieces : List Piece} (plain : literalsPlain pieces = true)
    {cs : List Char} {r : Reading} :
    matchPieces? pieces cs = some r ↔ Spelled pieces r (cs.map western) := by
  induction pieces generalizing cs r with
  | nil =>
    cases cs with
    | nil =>
      constructor
      · intro h
        cases h
        exact .nil
      · rintro ⟨⟩
        rfl
    | cons c cs =>
      constructor <;> rintro ⟨⟩
  | cons piece pieces ih =>
    cases piece with
    | exactly c =>
      obtain ⟨noDigit, plain⟩ := literalsPlain_exactly.mp plain
      have ih := @ih plain
      cases cs with
      | nil => constructor <;> rintro ⟨⟩
      | cons d cs =>
        rw [matchPieces?, Option.ite_none_right_eq_some, ih, List.map_cons]
        constructor
        · rintro ⟨rfl, rest⟩
          rw [western_of_no_digit noDigit]
          exact .exactly c rest
        · intro spelled
          generalize hd : western d = e at spelled
          cases spelled with
          | exactly _ rest => exact ⟨((western_eq_iff noDigit).mp hd).symm, rest⟩
    | digits component count =>
      simp only [matchPieces?, bind, Option.bind_eq_some_iff, Prod.exists, pure, Option.some.injEq,
        takeNumber?_eq_some_iff, @ih plain]
      constructor
      · rintro ⟨n, rest, ⟨fits, front, rfl, digits⟩, r, rest, rfl⟩
        rw [List.map_append, digits]
        exact .digits component ⟨n, fits⟩ rest
      · intro spelled
        generalize hw : cs.map western = w at spelled
        cases spelled with
        | digits _ n rest =>
          obtain ⟨front, back, rfl, digits, rfl⟩ := List.map_eq_append_iff.mp hw
          exact ⟨n, back, ⟨n.isLt, front, rfl, digits⟩, _, rest, rfl⟩
    | offset =>
      simp only [matchPieces?, bind, Option.bind_eq_some_iff, Prod.exists, pure, Option.some.injEq,
        takeOffset?_eq_some_iff, @ih plain]
      constructor
      · rintro ⟨seconds, rest, ⟨zone, rfl, front, rfl, same⟩, r, rest, rfl⟩
        rw [List.map_append, same]
        exact .offset zone rest
      · intro spelled
        generalize hw : cs.map western = w at spelled
        cases spelled with
        | offset zone rest =>
          obtain ⟨front, back, rfl, same, rfl⟩ := List.map_eq_append_iff.mp hw
          exact ⟨_, back, ⟨zone, rfl, front, rfl, same⟩, _, rest, rfl⟩

end ContentSchema.Calendar

import ContentSchema.Text.Digit
import Mathlib.Algebra.Group.Nat.Defs
import Mathlib.Data.List.Induction

/-! Numbers of a fixed width, written in the digits of ASCII and read in those of any script. -/
namespace ContentSchema.Text

theorem toString_injective : Function.Injective (toString : Nat → String) := by
  intro m n same
  have digits := congrArg String.toList same
  rw [Nat.toString_eq_repr, Nat.toString_eq_repr, Nat.toList_repr, Nat.toList_repr] at digits
  simpa using congrArg (fun digits => Nat.ofDigitChars 10 digits 0) digits

theorem digitValue?_digitChar : ∀ v < 10, digitValue? (Nat.digitChar v) = some v := by decide

theorem digitValue?_lt {c : Char} {v : Nat} (h : digitValue? c = some v) : v < 10 := by
  obtain ⟨start, found, rfl⟩ := Option.map_eq_some_iff.mp h
  have inRun := List.find?_some found
  simp only [Bool.and_eq_true, decide_eq_true_eq] at inRun
  omega

/-- A digit of any script as the digit of ASCII with its value; other characters stay. -/
def western (c : Char) : Char := (digitValue? c).elim c Nat.digitChar

theorem western_of_digit {c : Char} {v : Nat} (h : digitValue? c = some v) :
    western c = Nat.digitChar v := by
  rw [western, h, Option.elim_some]

theorem western_of_no_digit {c : Char} (h : digitValue? c = none) : western c = c := by
  rw [western, h, Option.elim_none]

/-- Only digits become a digit of ASCII. -/
theorem western_eq_digitChar_iff {c : Char} {v : Nat} (h : v < 10) :
    western c = Nat.digitChar v ↔ digitValue? c = some v := by
  refine ⟨fun same => ?_, western_of_digit⟩
  cases found : digitValue? c with
  | none =>
    rw [western_of_no_digit found] at same
    rw [same, digitValue?_digitChar v h] at found
    cases found
  | some w =>
    rw [western_of_digit found] at same
    have values := digitValue?_digitChar w (digitValue?_lt found)
    rw [same, digitValue?_digitChar v h] at values
    exact values.symm

/-- No other character is taken for one that is no digit. -/
theorem western_eq_iff {c d : Char} (h : digitValue? d = none) : western c = d ↔ c = d := by
  cases found : digitValue? c with
  | none => rw [western_of_no_digit found]
  | some v =>
    rw [western_of_digit found]
    constructor
    · rintro rfl
      rw [digitValue?_digitChar v (digitValue?_lt found)] at h
      cases h
    · rintro rfl
      rw [found] at h
      cases h

/-- The last digits of a number, as many as the width asks for. -/
def lastDigits : (width : Nat) → (n : Nat) → List Char
  | 0, _ => []
  | width + 1, n => lastDigits width (n / 10) ++ [Nat.digitChar (n % 10)]

theorem lastDigits_zero (width : Nat) : lastDigits width 0 = List.replicate width '0' := by
  induction width with
  | zero => rfl
  | succ width ih => rw [lastDigits, Nat.zero_div, ih, List.replicate_succ']; rfl

@[simp] theorem length_lastDigits (width n : Nat) : (lastDigits width n).length = width := by
  induction width generalizing n with
  | zero => rfl
  | succ width ih => simp [lastDigits, ih]

/-- A number that fits its width is filled up to exactly this width. -/
theorem toList_padded {width n : Nat} (pos : 0 < width) (fits : n < 10 ^ width) :
    (padded width n).toList = lastDigits width n := by
  obtain ⟨width, rfl⟩ := Nat.exists_eq_succ_of_ne_zero (Nat.ne_of_gt pos)
  rw [padded, String.toList_ofList]
  induction width generalizing n with
  | zero =>
    have single : n < 10 := by omega
    rw [Nat.toDigits_of_lt_base single, lastDigits, lastDigits, Nat.mod_eq_of_lt single]
    rfl
  | succ width ih =>
    rw [lastDigits]
    by_cases single : n < 10
    · rw [Nat.toDigits_of_lt_base single, Nat.div_eq_of_lt single, Nat.mod_eq_of_lt single,
        lastDigits_zero]
      rfl
    · have base : 10 ≤ n := Nat.le_of_not_lt single
      have shorter : n / 10 < 10 ^ (width + 1) := by omega
      rw [← ih (Nat.zero_lt_succ _) shorter, Nat.toDigits_of_base_le (by decide) base,
        List.length_append, List.length_singleton, Nat.succ_sub_succ, List.append_assoc]

theorem number?_append_singleton (cs : List Char) (c : Char) :
    number? (cs ++ [c]) = (number? cs).bind fun n => (digitValue? c).map (10 * n + ·) := by
  simp only [number?, List.foldlM_append, List.foldlM_cons, List.foldlM_nil, bind_pure]
  rfl

/-- The number that digits write is the one of this width with these last digits. -/
theorem number?_eq_some_iff {cs : List Char} {n : Nat} :
    number? cs = some n ↔ n < 10 ^ cs.length ∧ cs.map western = lastDigits cs.length n := by
  induction cs using List.reverseRecOn generalizing n with
  | nil => simp [number?, lastDigits, eq_comm]
  | append_singleton cs c ih =>
    have last : n % 10 < 10 := Nat.mod_lt n (by decide)
    have fits : n < 10 ^ (cs.length + 1) ↔ n / 10 < 10 ^ cs.length := by omega
    rw [number?_append_singleton, Option.bind_eq_some_iff, List.length_append,
      List.length_singleton, List.map_append, List.map_singleton, lastDigits, fits,
      ← List.concat_eq_append, ← List.concat_eq_append, List.concat_inj,
      western_eq_digitChar_iff last, ← and_assoc, ← ih]
    constructor
    · rintro ⟨m, front, sum⟩
      obtain ⟨v, digit, rfl⟩ := Option.map_eq_some_iff.mp sum
      have small := digitValue?_lt digit
      rw [show (10 * m + v) / 10 = m by omega, show (10 * m + v) % 10 = v by omega]
      exact ⟨front, digit⟩
    · rintro ⟨front, digit⟩
      refine ⟨n / 10, front, ?_⟩
      rw [digit, Option.map_some, Nat.div_add_mod]

theorem map_western_lastDigits (width n : Nat) :
    (lastDigits width n).map western = lastDigits width n := by
  induction width generalizing n with
  | zero => rfl
  | succ width ih =>
    rw [lastDigits, List.map_append, ih, List.map_singleton,
      western_of_digit (digitValue?_digitChar _ (Nat.mod_lt n (by decide)))]

theorem lastDigits_inj {width : Nat} {n m : Fin (10 ^ width)}
    (same : lastDigits width n = lastDigits width m) : n = m := by
  have read (k : Fin (10 ^ width)) : number? (lastDigits width k) = some k.val := by
    rw [number?_eq_some_iff, length_lastDigits, map_western_lastDigits]
    exact ⟨k.isLt, rfl⟩
  have numbers := read n
  rw [same, read m] at numbers
  exact Fin.ext (Option.some.inj numbers).symm

/-- A number of a known width ends where its digits end. -/
theorem lastDigits_append_inj {width : Nat} {n m : Fin (10 ^ width)} {cs ds : List Char}
    (same : lastDigits width n ++ cs = lastDigits width m ++ ds) : n = m ∧ cs = ds := by
  obtain ⟨digits, rest⟩ := List.append_inj same (by simp)
  exact ⟨lastDigits_inj digits, rest⟩

end ContentSchema.Text

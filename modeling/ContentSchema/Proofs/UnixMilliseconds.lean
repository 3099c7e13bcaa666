import ContentSchema.Calendar.Rendering
import ContentSchema.Proofs.BinaryRounding
import ContentSchema.Proofs.RelativePhrases
import ContentSchema.Proofs.UniversalTime
import ContentSchema.Proofs.WholeMonths

/-! Milliseconds of Unix time as they are written: seconds in binary, times a thousand, without the
fraction. The two roundings lose a millisecond of some times. -/
namespace ContentSchema.Calendar
open Binary64 (round_div_mul_zpow round_neg)

/-- Milliseconds made seconds and then milliseconds again, both in binary. -/
def viaSeconds (ms : Rat) : Rat := Rounding.binary64 (Rounding.binary64 (ms / 1000) * 1000)

theorem viaSeconds_neg (ms : Rat) : viaSeconds (-ms) = -viaSeconds ms := by
  have negative (q : Rat) : Rounding.binary64 (-q) = -Rounding.binary64 q := round_neg q
  rw [viaSeconds, viaSeconds, neg_div, negative, neg_mul, negative]

/-- This many milliseconds come back from seconds just below their number. In units of the last of 62
binary digits the number lies more than 256 and less than 500 above a multiple of a thousand. -/
def LosesOne (n : Nat) : Prop :=
  let shifted := n * 2 ^ (61 - n.log2)
  -- below this bound the seconds have one more digit behind the point, and nothing is lost
  1000 * 2 ^ 52 ≤ shifted ∧ 256 < shifted % 1000 ∧ shifted % 1000 < 500

instance : DecidablePred LosesOne := fun _ => inferInstanceAs (Decidable (_ ∧ _ ∧ _))

theorem nearest_thousandth {s m : Nat} (h : IsNearest (s / (1000 : Nat)) m) :
    1000 * m + s % 1000 = s ∧ s % 1000 ≤ 500 ∨ 1000 * m + s % 1000 = s + 1000 ∧ 500 ≤ s % 1000 := by
  obtain ⟨low, high, -⟩ := (isNearest_div_iff (by decide)).mp h
  omega

/-- A multiple of 512 is rounded to thousands and these to 512s. -/
theorem nearest_of_nearest {x m k : Nat} (even : Even x)
    (hm : IsNearest ((x * 2 ^ 9 : Nat) / (1000 : Nat)) m)
    (hk : IsNearest ((1000 * m : Nat) / (2 ^ 9 : Nat)) k) :
    if 256 < x * 2 ^ 9 % 1000 ∧ x * 2 ^ 9 % 1000 < 500 then k + 1 = x else x ≤ k ∧ k ≤ x + 1 := by
  have product := nearest_thousandth hm
  obtain ⟨low, high, tie⟩ := (isNearest_div_iff (by decide)).mp hk
  rw [Nat.even_iff] at even tie
  -- a product just 256 too small is in the middle, and the multiple is on the even side of it
  split_ifs with between
  · omega
  · omega

/-- A multiple of 1024 is rounded to thousands and these to 1024s. -/
theorem nearest_of_nearest_exact {x m k : Nat} (hm : IsNearest ((x * 2 ^ 10 : Nat) / (1000 : Nat)) m)
    (hk : IsNearest ((1000 * m : Nat) / (2 ^ 10 : Nat)) k) : k = x := by
  have product := nearest_thousandth hm
  obtain ⟨low, high, -⟩ := (isNearest_div_iff (by decide)).mp hk
  omega

theorem truncate_natCast_div (a b : Nat) : truncate (a / b : Rat) = (a / b : Nat) := by
  rw [truncate_of_nonneg (by positivity), Rat.floor_natCast_div_natCast, Int.natCast_div]

section Shifted
variable {n p w : Nat} (pos : 0 < p) (wide : w ≤ 62)
include pos wide

/-- Both roundings are to integers when the point is moved by `w` places and back by `c`. -/
theorem truncate_viaSeconds {c m k : Nat} (shift : 2 ^ w = p * 2 ^ c)
    (low : 2 ^ 52 * 1000 ≤ n * p * 2 ^ c) (high : n * p * 2 ^ c < 2 ^ 53 * 1000)
    (hm : IsNearest ((n * p * 2 ^ c : Nat) / (1000 : Nat)) m)
    (low' : 2 ^ 52 * 2 ^ c ≤ 1000 * m) (high' : 1000 * m < 2 ^ 53 * 2 ^ c)
    (hk : IsNearest ((1000 * m : Nat) / (2 ^ c : Nat)) k) :
    truncate (viaSeconds n) = (k / p : Nat) := by
  have pos' : (0 : Rat) < p := Nat.cast_pos.mpr pos
  have shift' : (2 : Rat) ^ w = p * 2 ^ c := by exact_mod_cast shift
  have places : c ≤ w := (Nat.pow_le_pow_iff_right (by decide)).mp
    (shift ▸ Nat.le_mul_of_pos_left _ pos)
  have seconds : (n / 1000 : Rat) = (n * p * 2 ^ c : Nat) / (1000 : Nat) * 2 ^ (-w : Int) := by
    rw [zpow_neg, zpow_natCast, shift']
    push_cast
    field_simp
  have product : (m * 2 ^ (-w : Int) * 1000 : Rat) =
      (1000 * m : Nat) / (2 ^ c : Nat) * 2 ^ (c - w : Int) := by
    rw [zpow_sub₀ two_ne_zero, zpow_neg, zpow_natCast, zpow_natCast]
    push_cast
    field_simp
  have whole : (k * 2 ^ (c - w : Int) : Rat) = k / p := by
    rw [zpow_sub₀ two_ne_zero, zpow_natCast, zpow_natCast, shift']
    field_simp
  have first := round_div_mul_zpow (e := -w) (by decide) low high (by omega) (by omega) hm
  have second :=
    round_div_mul_zpow (e := c - w) (Nat.two_pow_pos c) low' high' (by omega) (by omega) hk
  rw [viaSeconds, Rounding.binary64, seconds, first, product, second, whole, truncate_natCast_div]

/-- In the upper part of a power of two the product is rounded to one of two neighbours. -/
theorem truncate_viaSeconds_upper (even : Even p) (shift : 2 ^ w = p * 2 ^ 9)
    (low : 1000 * 2 ^ 52 ≤ n * p * 2 ^ 9) (high : n * p * 2 ^ 9 < 2 ^ 62) :
    truncate (viaSeconds n) =
      if 256 < n * p * 2 ^ 9 % 1000 ∧ n * p * 2 ^ 9 % 1000 < 500 then (n : Int) - 1 else n := by
  have hm := isNearest_roundHalfEven (n * p * 2 ^ 9) (by decide : 0 < 1000)
  have product := nearest_thousandth hm
  generalize roundHalfEven (n * p * 2 ^ 9) 1000 = m at *
  have hk := isNearest_roundHalfEven (1000 * m) (by decide : 0 < 2 ^ 9)
  have result := nearest_of_nearest (even.mul_left n) hm hk
  generalize roundHalfEven (1000 * m) (2 ^ 9) = k at *
  have evenProduct := Nat.even_iff.mp (even.mul_left n)
  have two : 2 ≤ p := Nat.le_of_dvd pos even.two_dvd
  rw [truncate_viaSeconds pos wide shift (by omega) (by omega) hm (by omega) (by omega) hk]
  have next := Nat.add_one_mul n p
  split_ifs at result ⊢
  · obtain ⟨l, rfl⟩ := Nat.exists_eq_add_one_of_ne_zero (n := n) (by rintro rfl; omega)
    have before := Nat.add_one_mul l p
    rw [Nat.div_eq_of_lt_le (k := l) (by omega) (by omega)]
    omega
  · rw [Nat.div_eq_of_lt_le (k := n) (by omega) (by omega)]

/-- In the lower part the seconds are fine enough to give the number back. -/
theorem truncate_viaSeconds_lower (shift : 2 ^ w = p * 2 ^ 10)
    (low : 2 ^ 62 ≤ n * p * 2 ^ 10) (high : n * p * 2 ^ 10 < 1000 * 2 ^ 53) :
    truncate (viaSeconds n) = n := by
  have hm := isNearest_roundHalfEven (n * p * 2 ^ 10) (by decide : 0 < 1000)
  have product := nearest_thousandth hm
  generalize roundHalfEven (n * p * 2 ^ 10) 1000 = m at *
  have hk := isNearest_roundHalfEven (1000 * m) (by decide : 0 < 2 ^ 10)
  have result := nearest_of_nearest_exact hm hk
  generalize roundHalfEven (1000 * m) (2 ^ 10) = k at *
  rw [truncate_viaSeconds pos wide shift (by omega) (by omega) hm (by omega) (by omega) hk, result,
    Nat.mul_div_cancel _ pos]

end Shifted

/-- With zeros behind it a number gets 53 binary digits. -/
theorem mul_two_pow_mem {n : Nat} (pos : 0 < n) (small : n < 2 ^ 52) :
    2 ^ 52 ≤ n * 2 ^ (52 - n.log2) ∧ n * 2 ^ (52 - n.log2) < 2 ^ 53 := by
  have short : n.log2 < 52 := (Nat.log2_lt pos.ne').mpr small
  have digits : n.log2 + (52 - n.log2) = 52 := by omega
  constructor
  · calc 2 ^ 52 = 2 ^ n.log2 * 2 ^ (52 - n.log2) := by rw [← Nat.pow_add, digits]
      _ ≤ n * 2 ^ (52 - n.log2) := Nat.mul_le_mul_right _ (Nat.log2_self_le pos.ne')
  · calc n * 2 ^ (52 - n.log2) < 2 ^ (n.log2 + 1) * 2 ^ (52 - n.log2) :=
          Nat.mul_lt_mul_of_pos_right Nat.lt_log2_self (Nat.two_pow_pos _)
      _ = 2 ^ 53 := by rw [← Nat.pow_add, Nat.add_right_comm, digits]

/-- What is left of a number of milliseconds after both roundings. -/
theorem truncate_viaSeconds_natCast {n : Nat} (small : n < 2 ^ 52) :
    truncate (viaSeconds n) = if LosesOne n then (n : Int) - 1 else n := by
  obtain rfl | pos := Nat.eq_zero_or_pos n
  · decide +kernel
  obtain ⟨low, high⟩ := mul_two_pow_mem pos small
  have short : n.log2 < 52 := (Nat.log2_lt pos.ne').mpr small
  have positive : 0 < 2 ^ (52 - n.log2) := Nat.two_pow_pos _
  have even : Even (2 ^ (52 - n.log2)) := even_two.pow_of_ne_zero (by omega)
  have upper : 2 ^ (61 - n.log2) = 2 ^ (52 - n.log2) * 2 ^ 9 := by
    rw [← Nat.pow_add]; congr 1; omega
  have lower : 2 ^ (62 - n.log2) = 2 ^ (52 - n.log2) * 2 ^ 10 := by
    rw [← Nat.pow_add]; congr 1; omega
  simp only [LosesOne, upper, ← Nat.mul_assoc]
  generalize 2 ^ (52 - n.log2) = p at *
  obtain reached | missed := Nat.lt_or_ge (n * p * 2 ^ 9) (1000 * 2 ^ 52)
  · rw [truncate_viaSeconds_lower positive (by omega) lower (by omega) (by linarith),
      if_neg fun loses => absurd loses.1 (Nat.not_le.mpr reached)]
  · rw [truncate_viaSeconds_upper positive (by omega) even upper missed (by omega)]
    simp only [missed, true_and]

theorem LosesOne.one_lt {n : Nat} (h : LosesOne n) : 1 < n := by
  by_contra few
  obtain rfl | rfl : n = 0 ∨ n = 1 := by omega
  · exact absurd h (by decide)
  · exact absurd h (by decide)

/-- The number that is written for a number of milliseconds. -/
def writtenMilliseconds (n : Int) : Int := if LosesOne n.natAbs then n - n.sign else n

theorem writtenMilliseconds_eq_self_iff {n : Int} :
    writtenMilliseconds n = n ↔ ¬ LosesOne n.natAbs := by
  rw [writtenMilliseconds]
  split_ifs with loses
  · have nonzero := Int.natAbs_ne_zero.mp (Nat.ne_zero_of_lt loses.one_lt)
    have := mt Int.sign_eq_zero_iff_zero.mp nonzero
    exact iff_of_false (by omega) (not_not_intro loses)
  · exact iff_of_true rfl loses

/-- One number is written as the other one, its exactly written neighbour on the side of zero. -/
def WrittenAs (n m : Int) : Prop :=
  LosesOne n.natAbs ∧ ¬ LosesOne m.natAbs ∧ m = n - n.sign

theorem writtenMilliseconds_eq_iff {n m : Int} :
    writtenMilliseconds n = writtenMilliseconds m ↔ n = m ∨ WrittenAs n m ∨ WrittenAs m n := by
  rw [writtenMilliseconds, writtenMilliseconds, WrittenAs, WrittenAs]
  split_ifs with first second second
  -- of two numbers that both lose one none is 1 or -1, so they do not meet at zero
  · have := first.one_lt
    have := second.one_lt
    grind
  · grind
  · grind
  · grind

theorem writtenMilliseconds_natCast (n : Nat) :
    writtenMilliseconds n = if LosesOne n then (n : Int) - 1 else n := by
  rw [writtenMilliseconds, Int.natAbs_natCast]
  split_ifs with loses
  · rw [Int.sign_natCast_of_ne_zero (Nat.ne_zero_of_lt loses.one_lt)]
  · rfl

theorem writtenMilliseconds_neg (n : Int) : writtenMilliseconds (-n) = -writtenMilliseconds n := by
  rw [writtenMilliseconds, writtenMilliseconds, Int.natAbs_neg, Int.sign_neg]
  split_ifs
  · omega
  · rfl

theorem truncate_viaSeconds_intCast {n : Int} (small : n.natAbs < 2 ^ 52) :
    truncate (viaSeconds n) = writtenMilliseconds n := by
  obtain ⟨k, rfl | rfl⟩ := n.eq_nat_or_neg
  · rw [Int.natAbs_natCast] at small
    rw [Int.cast_natCast, truncate_viaSeconds_natCast small, writtenMilliseconds_natCast]
  · rw [Int.natAbs_neg, Int.natAbs_natCast] at small
    rw [Int.cast_neg, Int.cast_natCast, viaSeconds_neg, truncate_neg,
      truncate_viaSeconds_natCast small, writtenMilliseconds_neg, writtenMilliseconds_natCast]

namespace DateTime

/-- Whole milliseconds since the Unix epoch. -/
def unixMilliseconds (t : DateTime) : Int := (t.instant - unixEpoch.instant) / 1000

theorem format_eq_render (round : Rounding) (t : DateTime) :
    t.format round "x" = .ok (t.render round .unixMillisecond) := by
  have single : tokens "x" = .ok [.placeholder .unixMillisecond] := by cbv
  rw [format, single]
  simp [Except.map, renderToken]

section Whole
variable {t : DateTime} (universal : t.IsUniversal) (whole : 1000 ∣ t.microsecond)

include universal whole in
theorem instant_eq_unixMilliseconds :
    t.instant = unixEpoch.instant + 1000 * t.unixMilliseconds := by
  have epoch : unixEpoch.instant = 62135683200000000 := by decide
  rw [unixMilliseconds, epoch, instant, universal.universal]
  omega

include universal in
theorem unixMilliseconds_small : t.unixMilliseconds.natAbs < 2 ^ 52 := by
  have epoch : unixEpoch.instant = 62135683200000000 := by decide
  obtain ⟨date, hour, minute, second, microsecond, -⟩ := (isValid_iff t).mp universal.valid
  have day : t.date.dayNumber ≤ 3652059 := Date.dayNumber_le date
  rw [unixMilliseconds, epoch, instant, universal.universal, secondOfDay]
  omega

include universal whole in
theorem format_unixMillisecond :
    t.format .binary64 "x" = .ok (toString (writtenMilliseconds t.unixMilliseconds)) := by
  have seconds : t.unixTime .binary64 = Rounding.binary64 (t.unixMilliseconds / 1000) := by
    have difference : t.instant - unixEpoch.instant = 1000 * t.unixMilliseconds := by
      have := instant_eq_unixMilliseconds universal whole
      omega
    rw [unixTime, difference, Rat.mkRat_eq_div]
    congr 1
    push_cast
    ring
  rw [format_eq_render, render, seconds, ← viaSeconds,
    truncate_viaSeconds_intCast (unixMilliseconds_small universal)]

end Whole

theorem unixMilliseconds_inj {t u : DateTime} (ht : t.IsUniversal) (hu : u.IsUniversal)
    (wholeT : 1000 ∣ t.microsecond) (wholeU : 1000 ∣ u.microsecond) :
    t.unixMilliseconds = u.unixMilliseconds ↔ t = u := by
  refine ⟨fun same => ?_, congrArg _⟩
  have instants : u.instant = t.instant := by
    rw [instant_eq_unixMilliseconds ht wholeT, instant_eq_unixMilliseconds hu wholeU, same]
  have back := ofInstant?_eq_some_iff.mpr ⟨ht.valid, ht.universal, rfl⟩
  rw [← instants, ofInstant?_eq_some_iff.mpr ⟨hu.valid, hu.universal, rfl⟩] at back
  exact (Option.some.inj back).symm

/-- Milliseconds are written exactly but where one is lost, and then the text is that of the time one
millisecond nearer to the epoch. -/
theorem unixMillisecond_exact_iff {t : DateTime} (universal : t.IsUniversal)
    (whole : 1000 ∣ t.microsecond) :
    t.instant = unixEpoch.instant + 1000 * t.unixMilliseconds ∧
      (t.format .binary64 "x" = .ok (toString t.unixMilliseconds) ↔
        ¬ LosesOne t.unixMilliseconds.natAbs) ∧
      (LosesOne t.unixMilliseconds.natAbs → t.format .binary64 "x" =
        .ok (toString (t.unixMilliseconds - t.unixMilliseconds.sign))) ∧
      ∀ u : DateTime, u.IsUniversal → 1000 ∣ u.microsecond →
        (t.format .binary64 "x" = u.format .binary64 "x" ↔ t = u ∨
          WrittenAs t.unixMilliseconds u.unixMilliseconds ∨
          WrittenAs u.unixMilliseconds t.unixMilliseconds) := by
  have texts {a b : Int} :
      (Except.ok (toString a) : Except FormatError String) = .ok (toString b) ↔ a = b := by
    rw [Except.ok.injEq, Phrase.toString_int_injective.eq_iff]
  rw [format_unixMillisecond universal whole, texts]
  refine ⟨instant_eq_unixMilliseconds universal whole, writtenMilliseconds_eq_self_iff,
    fun loses => ?_, fun u hu wholeU => ?_⟩
  · rw [writtenMilliseconds, if_pos loses]
  · rw [format_unixMillisecond hu wholeU, texts, writtenMilliseconds_eq_iff,
      unixMilliseconds_inj universal hu whole wholeU]

/-- Of a second of January 2004 the first two milliseconds have one text. -/
theorem unixMillisecond_exact_iff_lost :
    let t : DateTime := ⟨⟨2004, 1, 10⟩, 13, 37, 4, 1000, 0⟩
    let u : DateTime := ⟨⟨2004, 1, 10⟩, 13, 37, 4, 0, 0⟩
    t.IsUniversal ∧ 1000 ∣ t.microsecond ∧ LosesOne t.unixMilliseconds.natAbs ∧
      t.instant = unixEpoch.instant + 1000 * t.unixMilliseconds ∧
      t.format .binary64 "x" ≠ .ok (toString t.unixMilliseconds) ∧
      t.format .binary64 "x" = .ok (toString (t.unixMilliseconds - t.unixMilliseconds.sign)) ∧
      u.IsUniversal ∧ 1000 ∣ u.microsecond ∧ t.format .binary64 "x" = u.format .binary64 "x" := by
  intro t u
  have universal : t.IsUniversal := ⟨by decide, by decide⟩
  have whole : 1000 ∣ t.microsecond := by decide
  have universal' : u.IsUniversal := ⟨by decide, by decide⟩
  have whole' : 1000 ∣ u.microsecond := by decide
  have loses : LosesOne t.unixMilliseconds.natAbs := by decide +kernel
  have neighbour : WrittenAs t.unixMilliseconds u.unixMilliseconds :=
    ⟨loses, by decide +kernel, by decide +kernel⟩
  obtain ⟨number, exact, lost, shared⟩ := unixMillisecond_exact_iff universal whole
  exact ⟨universal, whole, loses, number, fun h => exact.mp h loses, lost loses, universal', whole',
    (shared u universal' whole').mpr (.inr (.inl neighbour))⟩

/-- One millisecond after a whole second the text is still that of the whole second. -/
theorem unixMillisecond_lost :
    let t : DateTime := ⟨⟨2004, 1, 10⟩, 13, 37, 4, 1000, 0⟩
    let u : DateTime := ⟨⟨2004, 1, 10⟩, 13, 37, 4, 0, 0⟩
    t.isValid = true ∧ t.offset = 0 ∧ 1000 ∣ t.microsecond ∧
      t.instant = unixEpoch.instant + 1000 * 1073741824001 ∧
      t.format .binary64 "x" = .ok "1073741824000" ∧
      u.isValid = true ∧ u.offset = 0 ∧ 1000 ∣ u.microsecond ∧ u ≠ t ∧
      u.format .binary64 "x" = .ok "1073741824000" := by
  intro t u
  refine ⟨by decide, by decide, by decide, by decide, ?_, by decide, by decide, by decide, by decide,
    ?_⟩ <;> rw [format_eq_render] <;> refine congrArg Except.ok ?_ <;> decide +kernel

/-- A whole second is written exactly. -/
theorem unixMillisecond_of_second {t : DateTime} (universal : t.IsUniversal)
    (second : t.microsecond = 0) :
    t.format .binary64 "x" = .ok (toString t.unixMilliseconds) := by
  have thousands : 1000 ∣ t.unixMilliseconds.natAbs := by
    have epoch : unixEpoch.instant = 62135683200000000 := by decide
    rw [unixMilliseconds, epoch, instant, universal.universal, second]
    omega
  have kept : ¬ LosesOne t.unixMilliseconds.natAbs := by
    rintro ⟨-, above, -⟩
    rw [Nat.mod_eq_zero_of_dvd (Dvd.dvd.mul_right thousands _)] at above
    exact absurd above (by decide)
  rw [format_unixMillisecond universal (second ▸ Nat.dvd_zero 1000),
    writtenMilliseconds_eq_self_iff.mpr kept]

end DateTime
end ContentSchema.Calendar

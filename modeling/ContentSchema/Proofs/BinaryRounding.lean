import ContentSchema.Number.Binary64
import Mathlib.Algebra.Order.Field.Power
import Mathlib.Data.Rat.Cast.Order
import Mathlib.Tactic.FieldSimp
import Mathlib.Tactic.Linarith
import Mathlib.Tactic.NormNum
import Mathlib.Tactic.Ring

/-! What rounding to a binary number leaves of a quotient: the nearest multiple of the power of two
that makes 53 significant bits, and of two that are equally near the even one. -/
namespace ContentSchema

/-- The integer nearest to a quotient; of two that are equally near it is the even one. -/
def IsNearest (q : Rat) (m : Nat) : Prop := |q - m| ≤ 1 / 2 ∧ (|q - m| = 1 / 2 → Even m)

namespace IsNearest
variable {q : Rat} {m n : Nat}

theorem le_of_near (h : IsNearest q m) (near : IsNearest q n) : m ≤ n := by
  by_contra greater
  have apart : (n : Rat) + 1 ≤ m := by exact_mod_cast Nat.lt_of_not_le greater
  have below := (abs_le.mp h.1).1
  have above := (abs_le.mp near.1).2
  -- both are at distance one half, and not both are even
  have next : (m : Rat) = n + 1 := by linarith
  have evenUpper : Even m := h.2 (by rw [abs_of_nonpos] <;> linarith)
  have evenLower : Even n := near.2 (by rw [abs_of_nonneg] <;> linarith)
  obtain rfl : m = n + 1 := by exact_mod_cast next
  exact Nat.even_add_one.mp evenUpper evenLower

theorem unique (h : IsNearest q m) (near : IsNearest q n) : m = n :=
  Nat.le_antisymm (h.le_of_near near) (near.le_of_near h)

end IsNearest

/-- The nearest integer to a quotient, without the division. -/
theorem isNearest_div_iff {a b m : Nat} (pos : 0 < b) :
    IsNearest (a / b) m ↔ 2 * a ≤ 2 * (m * b) + b ∧ 2 * (m * b) ≤ 2 * a + b ∧
      (2 * a = 2 * (m * b) + b ∨ 2 * (m * b) = 2 * a + b → Even m) := by
  have pos' : (0 : Rat) < b := Nat.cast_pos.mpr pos
  have upper : (a / b - m : Rat) ≤ 1 / 2 ↔ 2 * a ≤ 2 * (m * b) + b := by
    rw [sub_le_iff_le_add, div_le_iff₀ pos', ← Nat.cast_le (α := Rat)]
    push_cast
    constructor <;> intro h <;> linarith
  have lower : -(1 / 2) ≤ (a / b - m : Rat) ↔ 2 * (m * b) ≤ 2 * a + b := by
    rw [le_sub_iff_add_le, le_div_iff₀ pos', ← Nat.cast_le (α := Rat)]
    push_cast
    constructor <;> intro h <;> linarith
  have tieUpper : (a / b - m : Rat) = 1 / 2 ↔ 2 * a = 2 * (m * b) + b := by
    rw [sub_eq_iff_eq_add, div_eq_iff pos'.ne', ← Nat.cast_inj (R := Rat)]
    push_cast
    constructor <;> intro h <;> linarith
  have tieLower : (a / b - m : Rat) = -(1 / 2) ↔ 2 * (m * b) = 2 * a + b := by
    rw [sub_eq_iff_eq_add, div_eq_iff pos'.ne', ← Nat.cast_inj (R := Rat)]
    push_cast
    constructor <;> intro h <;> linarith
  rw [IsNearest, abs_le, abs_eq (by norm_num), lower, upper, tieUpper, tieLower]
  tauto

theorem isNearest_roundHalfEven (num : Nat) {den : Nat} (pos : 0 < den) :
    IsNearest (num / den) (roundHalfEven num den) := by
  have parts := Nat.div_add_mod' num den
  have small := Nat.mod_lt num pos
  rw [isNearest_div_iff pos, roundHalfEven]
  generalize num / den = q at parts
  generalize num % den = r at parts small
  subst parts
  have next := Nat.add_one_mul q den
  split_ifs with down up
  · exact ⟨by omega, by omega, fun tie => by omega⟩
  · exact ⟨by omega, by omega, fun tie => by omega⟩
  · obtain even | odd := Nat.even_or_odd q
    · rw [Nat.even_iff.mp even, Nat.add_zero]
      exact ⟨by omega, by omega, fun _ => even⟩
    · rw [Nat.odd_iff.mp odd]
      exact ⟨by omega, by omega, fun _ => odd.add_one⟩

namespace Binary64

/-- Scaling divides by a power of two. -/
theorem scaled_spec (num : Nat) {den : Nat} (pos : 0 < den) (e : Int) :
    0 < (scaled num den e).2 ∧
      ((scaled num den e).1 / (scaled num den e).2 : Rat) = num / den / 2 ^ e := by
  rw [scaled]
  split
  · rename_i nonneg
    obtain ⟨k, rfl⟩ := Int.eq_ofNat_of_zero_le nonneg
    refine ⟨Nat.mul_pos pos (Nat.pow_pos (by decide)), ?_⟩
    simp [div_div]
  · rename_i negative
    obtain ⟨k, rfl⟩ : ∃ k : Nat, e = -k := ⟨e.natAbs, by omega⟩
    refine ⟨pos, ?_⟩
    simp
    ring

theorem scaled_le_iff (num : Nat) {den : Nat} (pos : 0 < den) (e : Int) :
    (scaled num den e).2 ≤ (scaled num den e).1 ↔ (2 : Rat) ^ e ≤ num / den := by
  obtain ⟨positive, value⟩ := scaled_spec num pos e
  rw [← Nat.cast_le (α := Rat), ← one_le_div₀ (Nat.cast_pos.mpr positive), value,
    one_le_div₀ (by positivity)]

/-- The quotient of two numbers differs from that of their leading powers of two by less than a
factor of two. -/
theorem zpow_log2_sub_log2 {num den : Nat} (hn : 0 < num) (hd : 0 < den) :
    (2 : Rat) ^ ((num.log2 : Int) - den.log2 - 1) < num / den ∧
      (num / den : Rat) < 2 ^ ((num.log2 : Int) - den.log2 + 1) := by
  have bounds {n : Nat} (pos : 0 < n) : (2 : Rat) ^ n.log2 ≤ n ∧ (n : Rat) < 2 ^ n.log2 * 2 := by
    rw [← pow_succ]
    exact ⟨by exact_mod_cast Nat.log2_self_le pos.ne', by exact_mod_cast Nat.lt_log2_self⟩
  obtain ⟨lowNum, highNum⟩ := bounds hn
  obtain ⟨lowDen, highDen⟩ := bounds hd
  have posDen : (0 : Rat) < den := Nat.cast_pos.mpr hd
  have powNum : (0 : Rat) < 2 ^ num.log2 := by positivity
  have powDen : (0 : Rat) < 2 ^ den.log2 := by positivity
  rw [zpow_add₀ two_ne_zero, zpow_sub₀ two_ne_zero, zpow_sub₀ two_ne_zero, zpow_one, zpow_natCast,
    zpow_natCast, div_div]
  constructor
  · rw [div_lt_div_iff₀ (by positivity) posDen]
    calc (2 ^ num.log2 * den : Rat) < 2 ^ num.log2 * (2 ^ den.log2 * 2) := by gcongr
      _ ≤ num * (2 ^ den.log2 * 2) := by gcongr
  · rw [div_mul_eq_mul_div, div_lt_div_iff₀ posDen powDen]
    calc (num * 2 ^ den.log2 : Rat) < 2 ^ num.log2 * 2 * 2 ^ den.log2 := by gcongr
      _ ≤ 2 ^ num.log2 * 2 * den := by gcongr

/-- The binary logarithm of a quotient. -/
theorem log2Ratio_eq {num den : Nat} (pos : 0 < den) {k : Int} (low : (2 : Rat) ^ k ≤ num / den)
    (high : (num / den : Rat) < 2 ^ (k + 1)) : log2Ratio num den = k := by
  have hn : 0 < num := by
    refine Nat.pos_of_ne_zero ?_
    rintro rfl
    rw [Nat.cast_zero, zero_div] at low
    exact absurd low (not_le.mpr (by positivity))
  obtain ⟨below, above⟩ := zpow_log2_sub_log2 hn pos
  have upper := (zpow_lt_zpow_iff_right₀ one_lt_two).mp (low.trans_lt above)
  have lower := (zpow_lt_zpow_iff_right₀ one_lt_two).mp (below.trans high)
  rw [log2Ratio]
  simp only [scaled_le_iff num pos]
  split
  · rename_i reached
    have := (zpow_lt_zpow_iff_right₀ one_lt_two).mp (reached.trans_lt high)
    omega
  · rename_i missed
    have := (zpow_lt_zpow_iff_right₀ one_lt_two).mp (low.trans_lt (lt_of_not_ge missed))
    omega

theorem toRat?_finite (negative : Bool) (m : Nat) (e : Int) :
    (finite negative m e).toRat? = some (if negative then -(m * 2 ^ e : Rat) else m * 2 ^ e) := by
  have value : (if 0 ≤ e then mkRat (m * Nat.pow 2 e.toNat) 1 else mkRat m (Nat.pow 2 (-e).toNat)) =
      (m * 2 ^ e : Rat) := by
    split
    · rename_i nonneg
      obtain ⟨k, rfl⟩ := Int.eq_ofNat_of_zero_le nonneg
      simp [Rat.mkRat_eq_div]
    · rename_i negative
      obtain ⟨k, rfl⟩ : ∃ k : Nat, e = -k := ⟨e.natAbs, by omega⟩
      simp [Rat.mkRat_eq_div, div_eq_mul_inv]
  rw [toRat?, value]

/-- A quotient with 53 binary digits before the point becomes the nearest integer, with the point
moved back. -/
theorem toRat?_nearest (negative : Bool) {num den : Nat} (pos : 0 < den) {q : Rat} {e : Int} {m : Nat}
    (value : (num / den : Rat) = q * 2 ^ e) (low : 2 ^ 52 ≤ q) (high : q < 2 ^ 53)
    (normal : -1074 ≤ e) (small : e < 971) (near : IsNearest q m) :
    (nearest negative num den).toRat? =
      some (if negative then -(m * 2 ^ e : Rat) else m * 2 ^ e) := by
  have pow : (0 : Rat) < 2 ^ e := by positivity
  have nonzero : num ≠ 0 := by
    rintro rfl
    have : 0 < q * 2 ^ e := mul_pos (lt_of_lt_of_le (by norm_num) low) pow
    rw [← value, Nat.cast_zero, zero_div] at this
    exact lt_irrefl _ this
  have log : log2Ratio num den = 52 + e := by
    refine log2Ratio_eq pos ?_ ?_ <;> rw [value]
    · rw [zpow_add₀ two_ne_zero]
      exact mul_le_mul_of_nonneg_right low pow.le
    · rw [add_right_comm, zpow_add₀ two_ne_zero]
      exact mul_lt_mul_of_pos_right high pow
  have rounded : roundHalfEven (scaled num den e).1 (scaled num den e).2 = m := by
    obtain ⟨scaled_pos, quotient⟩ := scaled_spec num pos e
    refine (isNearest_roundHalfEven _ scaled_pos).unique ?_
    rwa [quotient, value, mul_div_cancel_right₀ _ pow.ne']
  have wide : 2 ^ 52 ≤ m := by
    have upper := (abs_le.mp near.1).2
    have : (2 ^ 52 : Rat) < m + 1 := by linarith
    exact Nat.le_of_lt_succ (by exact_mod_cast this)
  have exponent : max (52 + e - 52) (-1074) = e := by omega
  rw [nearest, if_neg nonzero, log, exponent]
  simp only [rounded]
  split <;> rename_i carry
  · rw [if_neg (by simp), if_neg (by omega), toRat?_finite, carry, zpow_add_one₀ two_ne_zero]
    have : ((Nat.pow 2 52 : Nat) * (2 ^ e * 2) : Rat) = (Nat.pow 2 53 : Nat) * 2 ^ e := by
      push_cast; ring
    rw [this]
  · rw [if_neg (by omega), if_neg (by omega), toRat?_finite]

theorem toRat?_nearest_not (negative : Bool) (num den : Nat) :
    (nearest (!negative) num den).toRat? = (nearest negative num den).toRat?.map (- ·) := by
  have flip (m : Nat) (e : Int) :
      (finite (!negative) m e).toRat? = (finite negative m e).toRat?.map (- ·) := by
    cases negative <;> simp [toRat?_finite]
  rw [nearest, nearest]
  dsimp only
  split_ifs
  all_goals first | exact flip _ _ | rfl

/-- Rounding is symmetric about zero. -/
theorem round_neg (q : Rat) : round (-q) = -round q := by
  obtain rfl | nonzero := eq_or_ne q 0
  · decide +kernel
  have sign : decide ((-q).num < 0) = !decide (q.num < 0) := by
    have := Rat.num_ne_zero.mpr nonzero
    rw [← decide_not, decide_eq_decide, Rat.neg_num]
    omega
  rw [round, round, ofRat, ofRat, sign, Rat.neg_num, Int.natAbs_neg, Rat.neg_den, toRat?_nearest_not]
  cases (nearest (decide (q.num < 0)) q.num.natAbs q.den).toRat? <;> rfl

/-- Rounding is to the nearest integer where the quotient has 53 binary digits before the point, and
it does not depend on where the point is. -/
theorem round_mul_zpow {q : Rat} {e : Int} {m : Nat} (low : 2 ^ 52 ≤ q) (high : q < 2 ^ 53)
    (normal : -1074 ≤ e) (small : e < 971) (near : IsNearest q m) :
    round (q * 2 ^ e) = m * 2 ^ e := by
  have num_pos : 0 < (q * 2 ^ e).num :=
    Rat.num_pos.mpr (mul_pos (lt_of_lt_of_le (by norm_num) low) (by positivity))
  have value : ((q * 2 ^ e).num.natAbs / (q * 2 ^ e).den : Rat) = q * 2 ^ e := by
    rw [Nat.cast_natAbs, abs_of_pos num_pos, Rat.num_div_den]
  rw [round, ofRat, toRat?_nearest _ (Rat.den_pos _) value low high normal small near,
    decide_eq_false num_pos.not_gt]
  rfl

theorem round_div_mul_zpow {a b m : Nat} {e : Int} (pos : 0 < b) (low : 2 ^ 52 * b ≤ a)
    (high : a < 2 ^ 53 * b) (normal : -1074 ≤ e) (small : e < 971) (near : IsNearest (a / b) m) :
    round (a / b * 2 ^ e) = m * 2 ^ e := by
  have pos' : (0 : Rat) < b := Nat.cast_pos.mpr pos
  refine round_mul_zpow ?_ ?_ normal small near
  · rw [le_div_iff₀ pos']
    exact_mod_cast low
  · rw [div_lt_iff₀ pos']
    exact_mod_cast high

end Binary64
end ContentSchema

import ContentSchema.Calendar.Relative
import ContentSchema.Proofs.DecimalDigits
import Mathlib.Data.Rat.Floor

/-! Durations in words. A longer duration never gets an earlier phrase, and a duration behind now
gets the phrase of the same duration ahead. -/
namespace ContentSchema.Calendar
open Text (toString_injective)

namespace Phrase

/-- The place of a phrase among the classes of phrases. -/
def rank : Phrase → Nat
  | fewSeconds => 0
  | minute => 1
  | minutes _ => 2
  | hour => 3
  | hours _ => 4
  | day => 5
  | days _ => 6
  | month => 7
  | months _ => 8
  | year => 9
  | years _ => 10

/-- The number in a phrase. -/
def number? : Phrase → Option Int
  | minutes n | hours n | days n | months n | years n => some n
  | fewSeconds | minute | hour | day | month | year => none

/-- A phrase is of no later class than another one, and in the same class its number is no greater. -/
def NotAfter (p q : Phrase) : Prop :=
  p.rank ≤ q.rank ∧ (p.rank = q.rank → ∀ m ∈ p.number?, ∀ n ∈ q.number?, m ≤ n)

namespace NotAfter

theorem of_lt {p q : Phrase} (h : p.rank < q.rank) : p.NotAfter q :=
  ⟨Nat.le_of_lt h, fun same => absurd same (Nat.ne_of_lt h)⟩

theorem unnumbered {p q : Phrase} (same : p.rank = q.rank) (none : p.number? = .none) :
    p.NotAfter q :=
  ⟨Nat.le_of_eq same, fun _ m mem => by rw [none] at mem; cases mem⟩

theorem numbered {p q : Phrase} {m n : Int} (same : p.rank = q.rank) (first : p.number? = some m)
    (second : q.number? = some n) (le : m ≤ n) : p.NotAfter q := by
  refine ⟨Nat.le_of_eq same, fun _ i hi j hj => ?_⟩
  rw [first, Option.mem_some] at hi
  rw [second, Option.mem_some] at hj
  rwa [← hi, ← hj]

/-- Two chains of tests keep the order when the tests of the second one are the narrower. -/
theorem ite {A B : Prop} [Decidable A] [Decidable B] {p q r s : Phrase} (narrower : B → A)
    (both : p.NotAfter q) (first : p.rank < s.rank) (rest : r.NotAfter s) :
    (if A then p else r).NotAfter (if B then q else s) := by
  by_cases hB : B
  · rw [if_pos hB, if_pos (narrower hB)]
    exact both
  · rw [if_neg hB]
    split
    · exact of_lt first
    · exact rest

end NotAfter

/-- The number in a phrase, if there is one, is at least two. -/
def SaysTwo (p : Phrase) : Prop := ∀ n ∈ p.number?, 2 ≤ n

namespace SaysTwo

theorem numbered {p : Phrase} {n : Int} (said : p.number? = some n) (more : 1 < n) :
    p.SaysTwo := by
  intro k mem
  rw [said, Option.mem_some] at mem
  omega

theorem ite {A : Prop} [Decidable A] {p q : Phrase} (first : A → p.SaysTwo)
    (rest : ¬ A → q.SaysTwo) : (if A then p else q).SaysTwo := by
  split
  · exact first ‹_›
  · exact rest ‹_›

end SaysTwo

theorem lt_rank_ite {A : Prop} [Decidable A] {k : Nat} {p q : Phrase} (first : k < p.rank)
    (rest : k < q.rank) : k < (if A then p else q).rank := by
  split
  · exact first
  · exact rest

/-- The phrase for a duration whose rounded number is known for every unit. -/
def ofCounts (seconds minutes hours days months years : Int) : Phrase :=
  if seconds < 45 then .fewSeconds
  else if minutes ≤ 1 then .minute
  else if minutes < 45 then .minutes minutes
  else if hours ≤ 1 then .hour
  else if hours < 22 then .hours hours
  else if days ≤ 1 then .day
  else if days < 26 then .days days
  else if months ≤ 1 then .month
  else if months < 11 then .months months
  else if years ≤ 1 then .year
  else .years years

theorem notAfter_ofCounts {s m h d mo y s' m' h' d' mo' y' : Int} (seconds : s ≤ s')
    (minutes : m ≤ m') (hours : h ≤ h') (days : d ≤ d') (months : mo ≤ mo') (years : y ≤ y') :
    (ofCounts s m h d mo y).NotAfter (ofCounts s' m' h' d' mo' y') := by
  unfold ofCounts
  refine .ite (Int.lt_of_le_of_lt seconds) (.unnumbered rfl rfl) ?_ <|
    .ite (Int.le_trans minutes) (.unnumbered rfl rfl) ?_ <|
    .ite (Int.lt_of_le_of_lt minutes) (.numbered rfl rfl rfl minutes) ?_ <|
    .ite (Int.le_trans hours) (.unnumbered rfl rfl) ?_ <|
    .ite (Int.lt_of_le_of_lt hours) (.numbered rfl rfl rfl hours) ?_ <|
    .ite (Int.le_trans days) (.unnumbered rfl rfl) ?_ <|
    .ite (Int.lt_of_le_of_lt days) (.numbered rfl rfl rfl days) ?_ <|
    .ite (Int.le_trans months) (.unnumbered rfl rfl) ?_ <|
    .ite (Int.lt_of_le_of_lt months) (.numbered rfl rfl rfl months) ?_ <|
    .ite (Int.le_trans years) (.unnumbered rfl rfl) ?_ (.numbered rfl rfl rfl years)
  -- every class further down the chain comes after the class in front
  all_goals
    repeat' apply lt_rank_ite
    all_goals simp [rank]

/-- A number is only said from two on. -/
theorem saysTwo_ofCounts (s m h d mo y : Int) : (ofCounts s m h d mo y).SaysTwo := by
  unfold ofCounts
  exact .ite (fun _ => nofun) fun _ =>
    .ite (fun _ => nofun) fun minutes =>
    .ite (fun _ => .numbered rfl (Int.not_le.mp minutes)) fun _ =>
    .ite (fun _ => nofun) fun hours =>
    .ite (fun _ => .numbered rfl (Int.not_le.mp hours)) fun _ =>
    .ite (fun _ => nofun) fun days =>
    .ite (fun _ => .numbered rfl (Int.not_le.mp days)) fun _ =>
    .ite (fun _ => nofun) fun months =>
    .ite (fun _ => .numbered rfl (Int.not_le.mp months)) fun _ =>
    .ite (fun _ => nofun) fun years => .numbered rfl (Int.not_le.mp years)

theorem ofMilliseconds_eq (round : Rounding) (ms : Rat) :
    let count (q : Rat) := nearestInteger round (round q)
    let days := round (ms / 86400000)
    ofMilliseconds round ms =
      ofCounts (count (ms / 1000)) (count (ms / 60000)) (count (ms / 3600000))
        (nearestInteger round days) (count (round (days * 4800) / 146097))
        (count (round (days * 400) / 146097)) :=
  rfl

theorem nearestInteger_mono {round : Rounding} (mono : Monotone round) {x y : Rat} (le : x ≤ y) :
    nearestInteger round x ≤ nearestInteger round y :=
  Int.floor_mono (mono (add_le_add_left le _))

/-- A longer duration never gets an earlier phrase, in every arithmetic that keeps the order. -/
theorem notAfter_ofMilliseconds {round : Rounding} (mono : Monotone round) {x y : Rat}
    (le : x ≤ y) : (ofMilliseconds round x).NotAfter (ofMilliseconds round y) := by
  have quotient {u v : Rat} (le : u ≤ v) {k : Rat} (pos : 0 ≤ k) : round (u / k) ≤ round (v / k) :=
    mono (div_le_div_of_nonneg_right le pos)
  have scaled (k : Rat) (pos : 0 ≤ k) :
      round (round (x / 86400000) * k) ≤ round (round (y / 86400000) * k) :=
    mono (mul_le_mul_of_nonneg_right (quotient le (by norm_num)) pos)
  rw [ofMilliseconds_eq, ofMilliseconds_eq]
  refine notAfter_ofCounts ?seconds ?minutes ?hours ?days ?months ?years
  case months => exact nearestInteger_mono mono (quotient (scaled 4800 (by norm_num)) (by norm_num))
  case years => exact nearestInteger_mono mono (quotient (scaled 400 (by norm_num)) (by norm_num))
  all_goals exact nearestInteger_mono mono (quotient le (by norm_num))

/-- What stands before the first space of a phrase. -/
def lead : Phrase → String
  | fewSeconds | minute | day | month | year => "a"
  | hour => "an"
  | minutes n | hours n | days n | months n | years n => toString n

/-- What stands after the first space of a phrase. -/
def noun : Phrase → String
  | fewSeconds => "few seconds"
  | minute => "minute"
  | minutes _ => "minutes"
  | hour => "hour"
  | hours _ => "hours"
  | day => "day"
  | days _ => "days"
  | month => "month"
  | months _ => "months"
  | year => "year"
  | years _ => "years"

theorem toList_text (p : Phrase) : p.text.toList = p.lead.toList ++ ' ' :: p.noun.toList := by
  cases p <;> simp [text, lead, noun]

theorem split_at_space {a b c d : List Char} (ha : ' ' ∉ a) (hc : ' ' ∉ c)
    (same : a ++ ' ' :: b = c ++ ' ' :: d) : a = c ∧ b = d := by
  induction a generalizing c with
  | nil =>
    cases c with
    | nil => exact ⟨rfl, (List.cons.inj same).2⟩
    | cons y c => exact absurd (List.cons.inj same).1 (List.ne_of_not_mem_cons hc)
  | cons x a ih =>
    cases c with
    | nil => exact absurd (List.cons.inj same).1 (List.ne_of_not_mem_cons ha).symm
    | cons y c =>
      obtain ⟨rfl, rest⟩ := List.cons.inj same
      obtain ⟨rfl, rfl⟩ := ih (List.not_mem_of_not_mem_cons ha) (List.not_mem_of_not_mem_cons hc) rest
      exact ⟨rfl, rfl⟩

theorem mem_toString_int {n : Int} {c : Char} (h : c ∈ (toString n).toList) :
    c = '-' ∨ c.isDigit = true := by
  have digit {k : Nat} (h : c ∈ (Nat.repr k).toList) : c.isDigit = true := by
    rw [Nat.toList_repr] at h
    exact Nat.isDigit_of_mem_toDigits (by decide) (by decide) h
  cases n with
  | ofNat k => exact .inr (digit h)
  | negSucc k =>
    change c ∈ ("-" ++ Nat.repr (k + 1)).toList at h
    rw [String.toList_append] at h
    obtain minus | rest := List.mem_append.mp h
    · exact .inl (List.mem_singleton.mp minus)
    · exact .inr (digit rest)

theorem toString_int_injective : Function.Injective (toString : Int → String) := by
  have minus {k l : Nat} : Nat.repr k ≠ "-" ++ Nat.repr l := by
    intro same
    have mem : '-' ∈ (Nat.repr k).toList := by
      rw [same, String.toList_append]
      exact List.mem_append_left _ (List.mem_singleton_self _)
    rw [Nat.toList_repr] at mem
    exact absurd (Nat.isDigit_of_mem_toDigits (by decide) (by decide) mem) (by decide)
  intro m n same
  cases m with
  | ofNat k =>
    cases n with
    | ofNat l => exact congrArg Int.ofNat (toString_injective same)
    | negSucc l => exact absurd same minus
  | negSucc k =>
    cases n with
    | ofNat l => exact absurd same.symm minus
    | negSucc l =>
      exact congrArg Int.negSucc (Nat.succ_injective (toString_injective
        ((String.append_right_inj _).mp same)))

theorem mem_lead {p : Phrase} {c : Char} (h : c ∈ p.lead.toList) :
    c ∈ ['a', 'n', '-'] ∨ c.isDigit = true := by
  have number {n : Int} (h : c ∈ (toString n).toList) :
      c ∈ ['a', 'n', '-'] ∨ c.isDigit = true := by
    obtain rfl | digit := mem_toString_int h
    · exact .inl (by decide)
    · exact .inr digit
  have article : "a".toList ⊆ ['a', 'n', '-'] := by decide
  cases p with
  | hour => exact .inl ((by decide : "an".toList ⊆ ['a', 'n', '-']) h)
  | minutes n => exact number h
  | hours n => exact number h
  | days n => exact number h
  | months n => exact number h
  | years n => exact number h
  | _ => exact .inl (article h)

theorem eq_of_lead_of_noun {p q : Phrase} (lead : p.lead = q.lead) (noun : p.noun = q.noun) :
    p = q := by
  cases p <;> cases q <;> simp only [Phrase.noun, String.reduceEq] at noun
  case minutes.minutes => exact congrArg minutes (toString_int_injective lead)
  case hours.hours => exact congrArg hours (toString_int_injective lead)
  case days.days => exact congrArg days (toString_int_injective lead)
  case months.months => exact congrArg months (toString_int_injective lead)
  case years.years => exact congrArg years (toString_int_injective lead)
  all_goals rfl

/-- Neither a space nor the letter that starts the word "in" stands before the first space. -/
theorem notMem_lead (p : Phrase) : ' ' ∉ p.lead.toList ∧ 'i' ∉ p.lead.toList := by
  constructor <;> intro mem <;> obtain known | digit := mem_lead mem
  · exact absurd known (by decide)
  · exact absurd digit (by decide)
  · exact absurd known (by decide)
  · exact absurd digit (by decide)

theorem text_injective : Function.Injective text := by
  intro p q same
  have chars := congrArg String.toList same
  rw [toList_text, toList_text] at chars
  obtain ⟨lead, noun⟩ := split_at_space p.notMem_lead.1 q.notMem_lead.1 chars
  exact eq_of_lead_of_noun (String.toList_inj.mp lead) (String.toList_inj.mp noun)

/-- No text says both that a time is ahead and that it is behind. -/
theorem in_ne_ago (p q : Phrase) : "in " ++ p.text ≠ q.text ++ " ago" := by
  intro same
  have chars := congrArg String.toList same
  rw [String.toList_append, String.toList_append, toList_text q] at chars
  cases hl : q.lead.toList with
  | nil =>
    rw [hl] at chars
    exact absurd (List.cons.inj chars).1 (by decide)
  | cons c rest =>
    rw [hl] at chars
    have first : 'i' = c := (List.cons.inj chars).1
    have notI := q.notMem_lead.2
    rw [hl, first] at notI
    exact notI List.mem_cons_self

end Phrase

/-- The phrase for the time between a time and now. -/
def phraseFrom (round : Rounding) (value now : DateTime) : Phrase :=
  .ofMilliseconds round (millisecondsFrom round now value).abs

/-- A text says a phrase of a time ahead or behind. -/
def Tells (s : String) (p : Phrase) : Prop := s = "in " ++ p.text ∨ s = p.text ++ " ago"

/-- What is said of a time has one phrase. -/
theorem tells_seenFrom_iff {round : Rounding} {value now : DateTime} {p : Phrase} :
    Tells (seenFrom round value now) p ↔ p = phraseFrom round value now := by
  rw [seenFrom, ← phraseFrom, Tells]
  split
  · rw [String.append_right_inj, Phrase.text_injective.eq_iff, eq_comm,
      or_iff_left (Phrase.in_ne_ago _ _)]
  · rw [String.append_left_inj, Phrase.text_injective.eq_iff, eq_comm (b := p),
      or_iff_right (Phrase.in_ne_ago _ _).symm]

theorem millisecondsFrom_exact (now value : DateTime) :
    millisecondsFrom .exact now value = ((value.instant - now.instant : Int) : Rat) / 1000 := by
  rw [millisecondsFrom, Rat.mkRat_eq_div]
  rfl

theorem abs_millisecondsFrom_exact (now value : DateTime) :
    (millisecondsFrom .exact now value).abs =
      ((|value.instant - now.instant| : Int) : Rat) / 1000 := by
  have same (q : Rat) : q.abs = |q| := by
    unfold Rat.abs
    split
    · exact (abs_of_nonneg ‹_›).symm
    · exact (abs_of_neg (lt_of_not_ge ‹_›)).symm
  rw [same, millisecondsFrom_exact, abs_div, Int.cast_abs, abs_of_pos (by norm_num : (0 : Rat) < 1000)]

/-- With exact quotients a time farther from now is never told by an earlier phrase, a number is only
said from two on, and of two times as far ahead as behind one text says how far. -/
theorem seenFrom_monotone_symmetric :
    (∀ now a b : DateTime, |a.instant - now.instant| ≤ |b.instant - now.instant| →
      ∃ p q, (∀ r, Tells (seenFrom .exact a now) r ↔ r = p) ∧
        (∀ r, Tells (seenFrom .exact b now) r ↔ r = q) ∧ p.NotAfter q) ∧
    (∀ now a p, Tells (seenFrom .exact a now) p → p.SaysTwo) ∧
    ∀ (now later earlier : DateTime) (d : Int), 0 < d → later.instant = now.instant + d →
      earlier.instant = now.instant - d →
      ∃ t, seenFrom .exact later now = "in " ++ t ∧ seenFrom .exact earlier now = t ++ " ago" := by
  refine ⟨fun now a b nearer => ?_, fun now a p told => ?_,
    fun now later earlier d pos ahead behind => ?_⟩
  · refine ⟨_, _, fun r => tells_seenFrom_iff, fun r => tells_seenFrom_iff,
      Phrase.notAfter_ofMilliseconds monotone_id ?_⟩
    rw [abs_millisecondsFrom_exact, abs_millisecondsFrom_exact]
    exact div_le_div_of_nonneg_right (Int.cast_le.mpr nearer) (by norm_num)
  · rw [tells_seenFrom_iff.mp told]
    exact Phrase.saysTwo_ofCounts _ _ _ _ _ _
  · have forward : later.instant - now.instant = d := by omega
    have backward : earlier.instant - now.instant = -d := by omega
    have positive : (0 : Rat) < d / 1000 := div_pos (Int.cast_pos.mpr pos) (by norm_num)
    have same : phraseFrom .exact earlier now = phraseFrom .exact later now := by
      rw [phraseFrom, phraseFrom, abs_millisecondsFrom_exact, abs_millisecondsFrom_exact, forward,
        backward, abs_neg]
    refine ⟨(phraseFrom .exact later now).text, ?_, ?_⟩
    · rw [seenFrom, ← phraseFrom, millisecondsFrom_exact, forward, if_pos positive]
    · rw [seenFrom, ← phraseFrom, millisecondsFrom_exact, backward, if_neg, same]
      rw [Int.cast_neg, neg_div]
      exact not_lt_of_gt (neg_neg_of_pos positive)

/-- Up to a minute and a half it is a minute, and from there on two minutes. -/
theorem seenFrom_monotone_symmetric_minutes :
    let now : DateTime := ⟨⟨2020, 1, 10⟩, 0, 0, 0, 0, 0⟩
    let nearer : DateTime := ⟨⟨2020, 1, 10⟩, 0, 1, 29, 999999, 0⟩
    let ahead : DateTime := ⟨⟨2020, 1, 10⟩, 0, 1, 30, 0, 0⟩
    let behind : DateTime := ⟨⟨2020, 1, 9⟩, 23, 58, 30, 0, 0⟩
    |nearer.instant - now.instant| ≤ |behind.instant - now.instant| ∧
      seenFrom .exact nearer now = "in a minute" ∧
      seenFrom .exact behind now = "2 minutes ago" ∧
      Phrase.minute.NotAfter (.minutes 2) ∧ (Phrase.minutes 2).SaysTwo ∧
      ahead.instant = now.instant + 90000000 ∧ behind.instant = now.instant - 90000000 ∧
      ∃ t, seenFrom .exact ahead now = "in " ++ t ∧ seenFrom .exact behind now = t ++ " ago" := by
  intro now nearer ahead behind
  have inMinute : seenFrom .exact nearer now = "in a minute" := by decide +kernel
  have minutesAgo : seenFrom .exact behind now = "2 minutes ago" := by decide +kernel
  have le : |nearer.instant - now.instant| ≤ |behind.instant - now.instant| := by decide
  have told : Tells (seenFrom .exact behind now) (.minutes 2) := .inr (by rw [minutesAgo]; rfl)
  have forward : ahead.instant = now.instant + 90000000 := by decide
  have backward : behind.instant = now.instant - 90000000 := by decide
  obtain ⟨monotone, two, symmetric⟩ := seenFrom_monotone_symmetric
  obtain ⟨p, q, hp, hq, notAfter⟩ := monotone now nearer behind le
  rw [← (hp .minute).mp (.inl (by rw [inMinute]; rfl)), ← (hq (.minutes 2)).mp told] at notAfter
  exact ⟨le, inMinute, minutesAgo, notAfter, two _ _ _ told, forward, backward,
    symmetric now ahead behind 90000000 (by decide) forward backward⟩

end ContentSchema.Calendar

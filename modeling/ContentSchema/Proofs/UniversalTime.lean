import ContentSchema.Calendar.DateTime
import ContentSchema.Proofs.DayNumbers

/-! Universal time: an instant within the years 1 to 9999 has exactly one date and time. -/
namespace ContentSchema.Calendar.DateTime

/-- A valid universal date and time is that of another date and time when both name one instant. -/
structure IsUtcOf (u t : DateTime) : Prop where
  valid : u.isValid = true
  universal : u.offset = 0
  sameInstant : u.instant = t.instant

theorem isValid_iff (t : DateTime) : t.isValid = true ↔
    t.date.isValid = true ∧ t.hour < 24 ∧ t.minute < 60 ∧ t.second < 60 ∧
      t.microsecond < 1000000 ∧ t.offset.natAbs < 86400 := by
  simp [isValid, and_assoc]

theorem ofInstant?_eq_some_iff {i : Int} {u : DateTime} :
    ofInstant? i = some u ↔ u.isValid = true ∧ u.offset = 0 ∧ u.instant = i := by
  rw [isValid_iff]
  constructor
  · intro found
    obtain ⟨date, known, rfl⟩ := Option.map_eq_some_iff.mp found
    obtain ⟨valid, day⟩ := Date.ofDayNumber?_eq_some_iff.mp known
    simp only [instant, secondOfDay]
    exact ⟨⟨valid, by omega, by omega, by omega, by omega, by decide⟩, trivial, by omega⟩
  · rintro ⟨⟨valid, hour, minute, second, microsecond, -⟩, universal, rfl⟩
    have seconds : u.instant / 1000000 = (u.date.dayNumber * 86400 + u.secondOfDay : Nat) := by
      simp only [instant, universal]
      omega
    have rest : (u.instant % 1000000).toNat = u.microsecond := by
      simp only [instant]
      omega
    have inDay : u.secondOfDay < 86400 := by
      simp only [secondOfDay]
      omega
    have day : u.instant / 1000000 / 86400 = u.date.dayNumber := by omega
    have time : (u.instant / 1000000 % 86400).toNat = u.secondOfDay := by omega
    have known := Date.ofDayNumber?_eq_some_iff.mpr ⟨valid, rfl⟩
    obtain ⟨date, h, m, s, us, offset⟩ := u
    simp only [ofInstant?, day, known, time, rest, secondOfDay, Option.map_some, Option.some.injEq,
      mk.injEq, true_and]
    simp only at hour minute second universal
    omega

/-- Universal time is found exactly where it exists. -/
theorem toUtc?_eq_some_iff {t u : DateTime} : t.toUtc? = some u ↔ u.IsUtcOf t := by
  rw [toUtc?, ofInstant?_eq_some_iff]
  exact ⟨fun ⟨valid, universal, same⟩ => ⟨valid, universal, same⟩,
    fun found => ⟨found.valid, found.universal, found.sameInstant⟩⟩

/-- A date and time that exists, told in universal time. -/
structure IsUniversal (t : DateTime) : Prop where
  valid : t.isValid = true
  universal : t.offset = 0

theorem IsUtcOf.isUniversal {u t : DateTime} (h : u.IsUtcOf t) : u.IsUniversal :=
  ⟨h.valid, h.universal⟩

theorem IsUtcOf.self {t : DateTime} (valid : t.isValid = true) (universal : t.offset = 0) :
    t.IsUtcOf t :=
  ⟨valid, universal, rfl⟩

end ContentSchema.Calendar.DateTime

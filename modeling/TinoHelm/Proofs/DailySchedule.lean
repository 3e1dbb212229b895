import TinoHelm.Spec.SummaryLoop

/-! The next daily summary is due today or tomorrow. Tomorrow is computed by raising the
day of the month, which the last day of a month does not survive. -/

namespace TinoHelm
open Base

/-- The step computes the least instant behind `now` at the configured time of day. -/
def SummaryScheduled (now : DateTime) (whenUtc : Time) : Prop :=
  ∃ target, dailySummaryTarget now whenUtc = .ok target ∧
    IsLeast {u | now.instant < u ∧ timeOfDay u = whenUtc.micros} target.instant ∧
    0 < delay now target ∧ delay now target ≤ microsPerDay

theorem instant_le_iff (date : Date) (t t' : Time) :
    DateTime.instant ⟨date, t⟩ ≤ DateTime.instant ⟨date, t'⟩ ↔ t.micros ≤ t'.micros := by
  simp [DateTime.instant]

theorem scheduled_of_isLeast {now target : DateTime} {whenUtc : Time}
    (h : dailySummaryTarget now whenUtc = .ok target)
    (hl : IsLeast {u | now.instant < u ∧ timeOfDay u = whenUtc.micros} target.instant) :
    SummaryScheduled now whenUtc := by
  have hpos : now.instant < target.instant := hl.1.1
  have hnow := now.time.micros_lt
  have hw := whenUtc.micros_lt
  have hnext : target.instant ≤ now.instant + microsPerDay := by
    rw [hl.unique (isLeast_timeOfDay _ hnow hw), DateTime.instant]
    split_ifs
    · omega
    · rw [Nat.succ_mul]
      omega
  refine ⟨target, h, hl, ?_, ?_⟩
  · unfold delay
    omega
  · unfold delay
    omega

/-- The daily summary is scheduled exactly if its time is still to come today or today is
not the last day of its month. -/
theorem daily_summary_scheduled_iff (now : DateTime) (whenUtc : Time) :
    SummaryScheduled now whenUtc ↔ now.time.micros < whenUtc.micros ∨ now.date.isLastOfMonth = false := by
  have hleast := isLeast_timeOfDay now.date.toOrdinal now.time.micros_lt whenUtc.micros_lt
  have hcmp := instant_le_iff now.date whenUtc now.time
  by_cases htoday : now.time.micros < whenUtc.micros
  · have hstep : dailySummaryTarget now whenUtc = .ok ⟨now.date, whenUtc⟩ := by
      unfold dailySummaryTarget
      exact if_neg fun hle => not_le.2 htoday (hcmp.1 hle)
    rw [if_pos htoday] at hleast
    exact iff_of_true (scheduled_of_isLeast hstep hleast) (Or.inl htoday)
  · have hle : DateTime.instant ⟨now.date, whenUtc⟩ ≤ now.instant := hcmp.2 (not_lt.1 htoday)
    rw [if_neg htoday] at hleast
    cases hd : now.date.withDay (now.date.day + 1) with
    | none =>
      have hstep : dailySummaryTarget now whenUtc = .error .valueError := by
        rw [dailySummaryTarget, if_pos hle, hd]
      refine iff_of_false ?_ ?_
      · rintro ⟨target, htarget, -⟩
        rw [hstep] at htarget
        cases htarget
      · rintro (h | h)
        · exact htoday h
        · rw [now.date.withDay_succ_eq_none_iff.1 hd] at h
          cases h
    | some date =>
      have hstep : dailySummaryTarget now whenUtc = .ok ⟨date, whenUtc⟩ := by
        rw [dailySummaryTarget, if_pos hle, hd]
      have hinst : DateTime.instant ⟨date, whenUtc⟩ =
          (now.date.toOrdinal + 1) * microsPerDay + whenUtc.micros := by
        rw [DateTime.instant, Date.toOrdinal_withDay_succ hd]
      have hnot : now.date.isLastOfMonth = false := by
        rw [← Bool.not_eq_true, ← now.date.withDay_succ_eq_none_iff, hd]
        simp
      rw [← hinst] at hleast
      exact iff_of_true (scheduled_of_isLeast hstep hleast) (Or.inr hnot)

/-- The summary of 14:00, on the last day of January at three in the afternoon. -/
theorem month_end_not_scheduled :
    ∃ whenUtc, parseHhMm "14:00" = .ok whenUtc ∧
      ¬SummaryScheduled ⟨⟨2025, 1, 31, by decide, by decide, by decide⟩,
        ⟨15, 0, 0, 0, by decide, by decide, by decide, by decide⟩⟩ whenUtc := by
  refine ⟨⟨14, 0, 0, 0, by decide, by decide, by decide, by decide⟩, by decide +kernel, ?_⟩
  rintro ⟨target, htarget, -⟩
  have hraise : dailySummaryTarget ⟨⟨2025, 1, 31, by decide, by decide, by decide⟩,
      ⟨15, 0, 0, 0, by decide, by decide, by decide, by decide⟩⟩
      ⟨14, 0, 0, 0, by decide, by decide, by decide, by decide⟩ = .error .valueError := by
    decide +kernel
  rw [hraise] at htarget
  cases htarget

end TinoHelm

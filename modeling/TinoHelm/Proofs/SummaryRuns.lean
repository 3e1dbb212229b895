import TinoHelm.Proofs.DailySchedule
import TinoHelm.Proofs.ReportDelivery
import TinoHelm.Spec.Sending
import TinoHelm.Spec.SummaryLoop

/-! The daily summaries of one process. A loop that is back before the day is over walks
through the rest of the month it was started in, one summary a day, and ends with it. -/

namespace TinoHelm
open Base

variable {whenUtc : Time} {ch : ℤ} {start : DateTime} {s : SummaryLoop} {ops : List SummaryOp}

def firstDay (start : DateTime) (whenUtc : Time) : ℕ :=
  if start.time.micros < whenUtc.micros then start.date.day else start.date.day + 1

def dueOn (start : DateTime) (whenUtc : Time) (day : ℕ) : Option DateTime :=
  (start.date.withDay day).map fun date => ⟨date, whenUtc⟩

def phaseOf : Option DateTime → SummaryPhase
  | some target => .sleeping target
  | none => .died .valueError

theorem withDay_day (d : Date) : d.withDay d.day = some d := by
  rw [Date.withDay, dif_pos d.day_mem]

theorem withDay_withDay {d d' : Date} {day : ℕ} (h : d.withDay day = some d') (day' : ℕ) :
    d'.withDay day' = d.withDay day' := by
  unfold Date.withDay at h
  split_ifs at h
  obtain rfl := Option.some.inj h
  rfl

theorem day_withDay {d d' : Date} {day : ℕ} (h : d.withDay day = some d') :
    d'.day = day ∧ day ≤ daysInMonth d.year d.month := by
  unfold Date.withDay at h
  split_ifs at h with hday
  obtain rfl := Option.some.inj h
  exact ⟨rfl, hday.2⟩

theorem scheduleSummary_eq (now : DateTime) (whenUtc : Time) :
    scheduleSummary now whenUtc = phaseOf (dueOn now whenUtc (firstDay now whenUtc)) := by
  have hcmp := instant_le_iff now.date whenUtc now.time
  by_cases htoday : now.time.micros < whenUtc.micros
  · have hstep : dailySummaryTarget now whenUtc = .ok ⟨now.date, whenUtc⟩ := by
      unfold dailySummaryTarget
      exact if_neg fun hle => not_le.2 htoday (hcmp.1 hle)
    rw [scheduleSummary, hstep, firstDay, if_pos htoday, dueOn, withDay_day]
    rfl
  · have hle : DateTime.instant ⟨now.date, whenUtc⟩ ≤ now.instant := hcmp.2 (not_lt.1 htoday)
    rw [firstDay, if_neg htoday, dueOn]
    cases hd : now.date.withDay (now.date.day + 1) with
    | none =>
      have hstep : dailySummaryTarget now whenUtc = .error .valueError := by
        rw [dailySummaryTarget, if_pos hle, hd]
      rw [scheduleSummary, hstep]
      rfl
    | some date =>
      have hstep : dailySummaryTarget now whenUtc = .ok ⟨date, whenUtc⟩ := by
        rw [dailySummaryTarget, if_pos hle, hd]
      rw [scheduleSummary, hstep]
      rfl

theorem scheduleSummary_back {back target : DateTime} {day : ℕ}
    (ht : dueOn start whenUtc day = some target) (hdate : back.date = target.date)
    (hle : target.instant ≤ back.instant) :
    scheduleSummary back whenUtc = phaseOf (dueOn start whenUtc (day + 1)) := by
  obtain ⟨date, hd, rfl⟩ := Option.map_eq_some_iff.1 ht
  obtain ⟨hday, -⟩ := day_withDay hd
  obtain ⟨bdate, btime⟩ := back
  obtain rfl : bdate = date := hdate
  have hpast : ¬btime.micros < whenUtc.micros := not_lt.2 ((instant_le_iff bdate whenUtc btime).1 hle)
  rw [scheduleSummary_eq, firstDay, if_neg hpast, hday]
  simp only [dueOn, withDay_withDay hd]

theorem summary_topic {w : SummaryWake} {env : EventEnvelope} {channelId : ℤ}
    (h : w.summary ch = .ok (env, channelId)) : env.topic = dailySummaryTopic ∧ channelId = ch := by
  simp only [SummaryWake.summary, buildDailySummary, bind_eq_ok, map_eq_ok] at h
  obtain ⟨counts, -, c, -, h⟩ := h
  obtain ⟨rfl, rfl⟩ := Prod.mk.inj h
  exact ⟨rfl, rfl⟩

/-- The loop is on its way through the days that were left of the month. -/
structure Walks (whenUtc : Time) (ch : ℤ) (start : DateTime) (s : SummaryLoop) : Prop where
  days : s.woken.map (fun w => some w.1) =
    (List.range' (firstDay start whenUtc) s.woken.length).map (dueOn start whenUtc)
  phase : s.phase = .cancelled ∨
    s.phase = phaseOf (dueOn start whenUtc (firstDay start whenUtc + s.woken.length))
  handed : ∀ r ∈ s.woken.filterMap Prod.snd, r.1.topic = dailySummaryTopic ∧ r.2 = ch
  isOpen : s.loop.fwd.closed = false
  sent : (s.woken.filterMap Prod.snd).Sublist (s.loop.sends.map fun c => (c.env, c.channelId))

theorem walks_init (whenUtc : Time) (ch : ℤ) (start : DateTime) :
    Walks whenUtc ch start { phase := scheduleSummary start whenUtc } where
  days := by rw [List.length_nil, List.range'_zero, List.map_nil, List.map_nil]
  phase := Or.inr <| by
    rw [List.length_nil, Nat.add_zero]
    exact scheduleSummary_eq start whenUtc
  handed := fun _ hr => absurd hr List.not_mem_nil
  isOpen := rfl
  sent := List.nil_sublist _

theorem Walks.wake (h : Walks whenUtc ch start s) {target : DateTime} (hp : s.phase = .sleeping target)
    {w : SummaryWake} (hnow : target.instant ≤ w.now.instant)
    (hback : w.now.instant ≤ w.back.instant) (hdate : w.back.date = target.date) :
    Walks whenUtc ch start (summaryStep whenUtc ch s (.wake w)) := by
  have hdue : dueOn start whenUtc (firstDay start whenUtc + s.woken.length) = some target := by
    rcases h.phase with hc | hc
    · rw [hp] at hc
      cases hc
    · rw [hp] at hc
      cases hd : dueOn start whenUtc (firstDay start whenUtc + s.woken.length) with
      | none =>
        rw [hd] at hc
        cases hc
      | some t =>
        rw [hd] at hc
        exact congrArg _ (SummaryPhase.sleeping.inj hc).symm
  simp only [summaryStep, hp, if_pos hnow]
  refine ⟨?_, Or.inr ?_, fun r hr => ?_, ?_, ?_⟩
  · rw [List.map_append, h.days, List.length_append, List.length_singleton, List.range'_concat,
      List.map_append, List.map_singleton, List.map_singleton, Nat.one_mul, hdue]
  · rw [List.length_append, List.length_singleton, ← Nat.add_assoc]
    exact scheduleSummary_back hdue hdate (hnow.trans hback)
  · rw [List.filterMap_append, List.mem_append] at hr
    rcases hr with hr | hr
    · exact h.handed r hr
    · obtain ⟨p, hp, hr⟩ := List.mem_filterMap.1 hr
      obtain rfl := List.mem_singleton.1 hp
      exact summary_topic (toOption_eq_some.1 hr)
  · split
    · rw [Loop.fwd_tryEnqueue]
      exact h.isOpen
    · exact h.isOpen
  · rw [List.filterMap_append]
    cases hs : w.summary ch with
    | error e => simpa [Except.toOption] using h.sent
    | ok r =>
      obtain ⟨env, channelId⟩ := r
      have htopic : env.topic ∉ onDemandReportTopics := by
        rw [(summary_topic hs).1]
        decide
      simp only [Except.toOption, Loop.sends_tryEnqueue_event channelId h.isOpen htopic,
        List.map_append]
      exact h.sent.append (List.Sublist.refl _)

/-- Whenever the loop wakes up it is back before the day of its summary is over. -/
def Prompt (whenUtc : Time) (ch : ℤ) (start : DateTime) (ops : List SummaryOp) : Prop :=
  ∀ pre w post target, ops = pre ++ .wake w :: post →
    (summaryAfter whenUtc ch start pre).phase = .sleeping target →
    target.instant ≤ w.now.instant → w.now.instant ≤ w.back.instant ∧ w.back.date = target.date

theorem Prompt.of_append {more : List SummaryOp} (h : Prompt whenUtc ch start (ops ++ more)) :
    Prompt whenUtc ch start ops := by
  rintro pre w post target rfl hp hnow
  exact h pre w (post ++ more) target (by rw [List.append_assoc, List.cons_append]) hp hnow

theorem walks_run (h : Prompt whenUtc ch start ops) :
    Walks whenUtc ch start (summaryAfter whenUtc ch start ops) := by
  revert h
  refine run_history (I := fun ops s => Prompt whenUtc ch start ops → Walks whenUtc ch start s)
    (fun _ => walks_init whenUtc ch start) (fun pre o ih h => ?_) ops
  have hw := ih h.of_append
  change Walks whenUtc ch start (summaryAfter whenUtc ch start pre) at hw
  change Walks whenUtc ch start (summaryStep whenUtc ch (summaryAfter whenUtc ch start pre) o)
  cases o with
  | wake w =>
    cases hp : (summaryAfter whenUtc ch start pre).phase with
    | sleeping target =>
      by_cases hnow : target.instant ≤ w.now.instant
      · obtain ⟨hback, hdate⟩ := h pre w [] target rfl hp hnow
        exact hw.wake hp hnow hback hdate
      · simpa only [summaryStep, hp, if_neg hnow] using hw
    | died e => simpa only [summaryStep, hp] using hw
    | cancelled => simpa only [summaryStep, hp] using hw
  | cancel =>
    cases hp : (summaryAfter whenUtc ch start pre).phase with
    | sleeping target =>
      simp only [summaryStep, hp]
      exact ⟨hw.days, Or.inl rfl, hw.handed, hw.isOpen, hw.sent⟩
    | died e => simpa only [summaryStep, hp] using hw
    | cancelled => simpa only [summaryStep, hp] using hw
  | forwarder op =>
    refine ⟨hw.days, hw.phase, hw.handed, (open_step _ op).trans hw.isOpen, hw.sent.trans ?_⟩
    exact ((Loop.sends_forwarderStep _ op).map _).sublist

theorem firstDay_le (start : DateTime) (whenUtc : Time) :
    firstDay start whenUtc ≤ daysInMonth start.date.year start.date.month + 1 := by
  have hday := start.date.day_mem
  unfold firstDay
  split_ifs
  · omega
  · omega

theorem Walks.length_le (h : Walks whenUtc ch start s) :
    firstDay start whenUtc + s.woken.length ≤
      daysInMonth start.date.year start.date.month + 1 := by
  obtain hnil | ⟨pre, last, hlast⟩ := List.eq_nil_or_concat' s.woken
  · rw [hnil, List.length_nil, Nat.add_zero]
    exact firstDay_le start whenUtc
  · have hdays := h.days
    rw [hlast, List.map_append, List.length_append, List.length_singleton, List.range'_concat,
      List.map_append, List.map_singleton, List.map_singleton] at hdays
    have hlen : [some last.1].length =
        [dueOn start whenUtc (firstDay start whenUtc + 1 * pre.length)].length := by
      rw [List.length_singleton, List.length_singleton]
    have hdue := (List.append_inj' hdays hlen).2
    obtain ⟨date, hd, -⟩ := Option.map_eq_some_iff.1 (List.singleton_inj.1 hdue).symm
    have hle := (day_withDay hd).2
    rw [hlast, List.length_append, List.length_singleton]
    omega

/-- A loop that is always back in time wakes up once on each day from the first one on. It
hands its summaries to the logging channel, each is scheduled once, and behind the last day
of the month no other comes: the loop has died. -/
theorem summaries_until_month_end (whenUtc : Time) (ch : ℤ) (start : DateTime)
    (ops : List SummaryOp) (h : Prompt whenUtc ch start ops) :
    let s := summaryAfter whenUtc ch start ops
    let first := firstDay start whenUtc
    s.woken.map (fun w => some w.1) =
        (List.range' first s.woken.length).map (dueOn start whenUtc) ∧
      first + s.woken.length ≤ daysInMonth start.date.year start.date.month + 1 ∧
      (s.phase = .cancelled ∨ s.phase = phaseOf (dueOn start whenUtc (first + s.woken.length))) ∧
      (∀ r ∈ s.woken.filterMap Prod.snd, r.1.topic = dailySummaryTopic ∧ r.2 = ch) ∧
      (s.woken.filterMap Prod.snd).Sublist (s.loop.sends.map fun c => (c.env, c.channelId)) := by
  intro s first
  have hw := walks_run h
  exact ⟨hw.days, hw.length_le, hw.phase, hw.handed, hw.sent⟩

/-! A notifier that was started on the evening before the last day of a month. -/

def twoPm : Time := ⟨14, 0, 0, 0, by decide, by decide, by decide, by decide⟩

def januaryAt (day : ℕ) (hday : 1 ≤ day ∧ day ≤ 31) (hour : ℕ) (hhour : hour < 24) : DateTime :=
  ⟨⟨2025, 1, day, by decide, by decide, hday⟩, ⟨hour, 0, 0, 0, hhour, by decide, by decide, by decide⟩⟩

def eveOfLast : DateTime := januaryAt 30 (by decide) 20 (by decide)

def lastWake : SummaryWake where
  now := januaryAt 31 (by decide) 14 (by decide)
  cache := some (.ok ⟨1, 2, 3⟩)
  keys _ := .ok []
  back := januaryAt 31 (by decide) 15 (by decide)

theorem summaries_until_month_end_january :
    let s := summaryAfter twoPm 3 eveOfLast [.wake lastWake]
    let first := firstDay eveOfLast twoPm
    s.woken.map (fun w => some w.1) =
        (List.range' first s.woken.length).map (dueOn eveOfLast twoPm) ∧
      first + s.woken.length ≤ daysInMonth eveOfLast.date.year eveOfLast.date.month + 1 ∧
      (s.phase = .cancelled ∨
        s.phase = phaseOf (dueOn eveOfLast twoPm (first + s.woken.length))) ∧
      (∀ r ∈ s.woken.filterMap Prod.snd, r.1.topic = dailySummaryTopic ∧ r.2 = 3) ∧
      (s.woken.filterMap Prod.snd).Sublist (s.loop.sends.map fun c => (c.env, c.channelId)) := by
  have hfirst : firstDay eveOfLast twoPm = 31 := by decide +kernel
  refine summaries_until_month_end twoPm 3 eveOfLast [.wake lastWake] fun pre w post t hops hp _ => ?_
  cases pre with
  | nil =>
    obtain ⟨hw, -⟩ := List.cons.inj hops
    obtain rfl := SummaryOp.wake.inj hw
    have hdue : dueOn eveOfLast twoPm 31 = some ⟨lastWake.now.date, twoPm⟩ := by decide +kernel
    rw [summaryAfter, run_nil, scheduleSummary_eq, hfirst, hdue] at hp
    obtain rfl := SummaryPhase.sleeping.inj hp
    exact ⟨by decide +kernel, rfl⟩
  | cons o pre => simp at hops

end TinoHelm

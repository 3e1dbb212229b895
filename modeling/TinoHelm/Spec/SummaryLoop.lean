import TinoHelm.Base.Calendar
import TinoHelm.Base.Machine
import TinoHelm.Spec.Forwarder

/-! `_daily_summary_loop` of `notifier/runner.py`: when the next summary is due, with
`_parse_hh_mm`, from one sleep to the next, and what `build_daily_summary` makes of the
counts. The other callers of `enqueue` take their turns while the loop sleeps. All times
are UTC. -/

namespace TinoHelm
open Base

def timeOf (hour minute : ℤ) : Except PyError Time :=
  if h : (0 ≤ hour ∧ hour < 24) ∧ 0 ≤ minute ∧ minute < 60 then
    .ok ⟨hour.toNat, minute.toNat, 0, 0, by omega, by omega, by omega, by omega⟩
  else .error .valueError

/-- `_parse_hh_mm`; a text without a colon cannot be unpacked. -/
def parseHhMm (value : String) : Except PyError Time :=
  match value.toList.span (· ≠ ':') with
  | (h, _ :: m) =>
    match readInt (String.ofList h), readInt (String.ofList m) with
    | some hour, some minute => timeOf hour minute
    | _, _ => .error .valueError
  | (_, []) => .error .valueError

/-- The moment the loop sleeps until. `replace` raises for a day the month does not have. -/
def dailySummaryTarget (now : DateTime) (whenUtc : Time) : Except PyError DateTime :=
  let target : DateTime := ⟨now.date, whenUtc⟩
  if target.instant ≤ now.instant then
    match target.date.withDay (target.date.day + 1) with
    | some date => .ok { target with date }
    | none => .error .valueError
  else .ok target

/-- `(target - now).total_seconds()`, in microseconds. -/
def delay (now target : DateTime) : ℤ := (target.instant : ℤ) - now.instant

def dailySummaryTopic : String := "tinohelm.daily_summary"

def cacheUnavailable : String := "Cache unavailable (notifier ran without [cache] section)"

structure CacheCounts where
  positionsOpen : ℕ
  positionsClosed : ℕ
  ordersOpen : ℕ

def summaryBody (cache : Option CacheCounts) (redisStreamCount : ℕ) : Value :=
  let counts := match cache with
    | some c => [(.str "positions_open", .int c.positionsOpen),
        (.str "positions_closed", .int c.positionsClosed), (.str "orders_open", .int c.ordersOpen)]
    | none => [(.str "note", .str cacheUnavailable)]
  .dict (counts ++ [(.str "redis_streams_seen", .int redisStreamCount)])

/-- `build_daily_summary`; the cache may raise. -/
def buildDailySummary (cache : Option (Except PyError CacheCounts)) (redisStreamCount : ℕ)
    (loggingChannelId : ℤ) : Except PyError (EventEnvelope × ℤ) :=
  let counts : Except PyError (Option CacheCounts) := match cache with
    | none => .ok none
    | some c => c.map some
  counts.map fun counts => (⟨dailySummaryTopic, summaryBody counts redisStreamCount⟩, loggingChannelId)

def summaryPatterns : List String := ["trader-*:stream:events.*", "tinohelm:control:*"]

/-- What the loop finds when its sleep is over: the clock, NT's cache, the keys Redis lists
for a pattern, and the clock again when it schedules the next summary. -/
structure SummaryWake where
  now : DateTime
  cache : Option (Except PyError CacheCounts)
  keys : String → Except PyError (List String)
  back : DateTime

def SummaryWake.summary (w : SummaryWake) (loggingChannelId : ℤ) :
    Except PyError (EventEnvelope × ℤ) := do
  let counts ← summaryPatterns.mapM fun p => (w.keys p).map List.length
  buildDailySummary w.cache counts.sum loggingChannelId

inductive SummaryPhase where
  | sleeping (target : DateTime)
  | died (e : PyError)
  | cancelled

def SummaryPhase.ofTarget : Except PyError DateTime → SummaryPhase
  | .ok target => .sleeping target
  | .error e => .died e

def scheduleSummary (now : DateTime) (whenUtc : Time) : SummaryPhase :=
  .ofTarget (dailySummaryTarget now whenUtc)

/-- `woken` keeps the targets that were slept until, with what was handed to `enqueue`. -/
structure SummaryLoop where
  phase : SummaryPhase
  loop : Loop := {}
  woken : List (DateTime × Option (EventEnvelope × ℤ)) := []

/-- `cancel` is what a signal does to the task. -/
inductive SummaryOp where
  | wake (w : SummaryWake)
  | cancel
  | forwarder (op : ForwarderOp)

/-- A sleep is never over before its time; what the `try` catches is only logged. -/
def summaryStep (whenUtc : Time) (loggingChannelId : ℤ) (s : SummaryLoop) : SummaryOp → SummaryLoop
  | .wake w =>
    match s.phase with
    | .sleeping target =>
      if target.instant ≤ w.now.instant then
        let summary := (w.summary loggingChannelId).toOption
        { phase := scheduleSummary w.back whenUtc
          loop := match summary with
            | some (env, channelId) => s.loop.tryEnqueue env channelId
            | none => s.loop
          woken := s.woken ++ [(target, summary)] }
      else s
    | _ => s
  | .cancel =>
    match s.phase with
    | .sleeping _ => { s with phase := .cancelled }
    | _ => s
  | .forwarder op => { s with loop := forwarderStep s.loop op }

def summaryAfter (whenUtc : Time) (loggingChannelId : ℤ) (start : DateTime) (ops : List SummaryOp) :
    SummaryLoop :=
  run (summaryStep whenUtc loggingChannelId) { phase := scheduleSummary start whenUtc } ops

end TinoHelm

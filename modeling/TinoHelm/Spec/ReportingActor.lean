import TinoHelm.Base.Machine
import TinoHelm.Spec.NodeConfig

/-! `ReportingActor` (`reporting_actor.py`), and a pod with its bridge and its reporting
actors from the start on: the trader starts and stops the actors, their timers tick, and
commands come in, in any order. -/

namespace TinoHelm
open Base

def reportingActorPath : String := "tinohelm.reporting_actor:ReportingActor"

structure ReportingActorConfig where
  strategyId : String
  intervalMinutes : ℤ
  enabled : Bool

/-- How msgspec reads a field of type `int`, and which intervals the clock of an actor takes. -/
structure ActorLibrary where
  asInt : Value → Option ℤ
  acceptsInterval : ℤ → Bool

/-- The table an actor is imported with, as NT decodes it. -/
def ReportingActorConfig.decode (lib : ActorLibrary) (table : Value) : Option ReportingActorConfig :=
  match table.get "strategy_id", lib.asInt (table.getOr "interval_minutes" (.int 30)),
    table.getOr "enabled" (.bool true) with
  | .str strategyId, some intervalMinutes, .bool enabled => some ⟨strategyId, intervalMinutes, enabled⟩
  | _, _, _ => none

/-- `timer` is the interval of the actor's timer while the clock has it. -/
structure ReportingActor where
  strategyId : String
  intervalMinutes : ℤ
  enabled : Bool
  timer : Option ℤ := none

namespace ReportingActor

def init (config : ReportingActorConfig) : ReportingActor where
  strategyId := config.strategyId
  intervalMinutes := config.intervalMinutes
  enabled := config.enabled

/-- The clock refuses a second timer of one name. -/
def onStart (lib : ActorLibrary) (a : ReportingActor) : ReportingActor :=
  if a.enabled && a.timer.isNone && lib.acceptsInterval a.intervalMinutes then
    { a with timer := some a.intervalMinutes }
  else a

def onStop (a : ReportingActor) : ReportingActor := { a with timer := none }

def tick (encode : Value → ByteArray) (rt : NtRuntime) (a : ReportingActor) : BridgeCall :=
  let (topic, body) := buildPositionsReportPayload encode rt.positions a.strategyId
    (some rt.portfolio) (venuesFromCache rt.accounts)
  .publish topic body

/-- `_on_time_event`, which the clock calls while it has the timer. -/
def onTimeEvent (encode : Value → ByteArray) (rt : NtRuntime) (a : ReportingActor) : List BridgeCall :=
  if a.timer.isSome then [a.tick encode rt] else []

end ReportingActor

def reportingActors (lib : ActorLibrary) (actors : List ImportableActorConfig) :
    Option (List ReportingActor) :=
  (actors.filter fun a => a.actorPath.isStr reportingActorPath).mapM fun a =>
    (ReportingActorConfig.decode lib a.config).map .init

structure ReportingPod where
  pod : StrategyPod
  reporters : List ReportingActor

/-- `tick i`: the clock of reporting actor `i`, and what NT answers it. -/
inductive PodOp where
  | command (c : Command)
  | start
  | stop
  | tick (i : ℕ) (runtime : NtRuntime)

namespace ReportingPod

/-- A pod whose actors NT could import. -/
def build {Inst : Type} (lib : ActorLibrary) (config : NodeConfig Inst) : Option ReportingPod :=
  (reportingActors lib config.actors).map fun reporters =>
    ⟨.start config.toTradingNodeConfig, reporters⟩

variable (nt : NtBus) (encode : Value → ByteArray) (lib : ActorLibrary)

def step (p : ReportingPod) : PodOp → ReportingPod
  | .command c => { p with pod := (p.pod.obey nt encode c).1 }
  | .start => { p with reporters := p.reporters.map (·.onStart lib) }
  | .stop => { p with reporters := p.reporters.map (·.onStop) }
  | .tick _ _ => p

def calls (p : ReportingPod) : PodOp → List BridgeCall
  | .command c => (p.pod.obey nt encode c).2
  | .tick i runtime => (p.reporters[i]?.map (·.onTimeEvent encode runtime)).getD []
  | .start | .stop => []

def life (p : ReportingPod) (ops : List PodOp) : List BridgeCall :=
  trace (step nt encode lib) (calls nt encode) p ops

end ReportingPod

end TinoHelm

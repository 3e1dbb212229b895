import TinoHelm.Base.Json
import TinoHelm.Spec.Commands
import TinoHelm.Spec.MessageBus
import TinoHelm.Spec.Reporting

/-! The command side of a strategy pod: the control stream `config.py` lists among the
external streams of the pod, and `BridgeActor` (`bridge_actor.py`), which obeys what NT
replays from it. Log lines are left out. -/

namespace TinoHelm
open Base

/-- `raw.get("sandbox", {})`, whose `get` is called next. -/
def sandboxSection (raw : Value) : Except ConfigError Value :=
  match raw.lookup? "sandbox" with
  | none => .ok (.dict [])
  | some (.dict kvs) => .ok (.dict kvs)
  | some _ => .error .attributeError

def sandboxPersist (raw : Value) : Except ConfigError Bool :=
  (sandboxSection raw).map fun sec => (sec.getOr "persist" (.bool false)).truthy

def sandboxFillFuelOn (mode : String) (raw : Value) : Except ConfigError Bool :=
  if mode = "sandbox" then
    (sandboxSection raw).map fun sec => (sec.getOr "fill_fuel" (.bool true)).truthy
  else .ok false

structure BridgeActorConfig where
  strategyId : String
  commandTopic : String
  mode : String
  sandboxPersist : Bool

structure ImportableControllerConfig where
  controllerPath : String
  configPath : String
  config : BridgeActorConfig

def buildControllerImport (file : TinoStrategyFile) :
    Except ConfigError ImportableControllerConfig := do
  let persist ← sandboxPersist file.raw
  .ok {
    controllerPath := "tinohelm.bridge_actor:BridgeActor"
    configPath := "tinohelm.bridge_actor:BridgeActorConfig"
    config := ⟨file.strategyId, file.commandTopic, file.mode, persist⟩ }

/-- `list(raw.get("message_bus", {}).get("external_streams") or [])` -/
def userStreams (raw : Value) : Except ConfigError (List Value) := do
  let sec ← messageBusSection raw
  let streams := sec.get "external_streams"
  if streams.truthy then streams.toList.mapError .python else .ok []

/-- The user's streams, with the control stream of the pod among them. -/
def withControlStream (streams : List Value) (strategyId : String) : List Value :=
  let extra := controlStreamKey strategyId
  if streams.any (·.isStr extra) then streams else streams ++ [.str extra]

structure TradingNodeConfig where
  messageBus : MessageBusConfig
  controller : ImportableControllerConfig

/-- `build_trading_node_config`, without the sections that no command passes through. -/
def buildTradingNodeConfig (env : BusEnv) (file : TinoStrategyFile) :
    Except BusError TradingNodeConfig := do
  let streams ← (userStreams file.raw).mapError .config
  let filterL2Book ← (sandboxFillFuelOn file.mode file.raw).mapError .config
  let messageBus ← buildMessageBusConfig env file.raw
    (some (withControlStream streams file.strategyId)) filterL2Book
  let controller ← (buildControllerImport file).mapError .config
  .ok ⟨messageBus, controller⟩

def MessageBusConfig.streams (bus : MessageBusConfig) : List Value :=
  match bus.externalStreams with
  | .list xs => xs
  | _ => []

/-! `BridgeActor`. -/

def actions : List String := ["pause", "resume", "flatten", "ping", "report", "fills", "orders"]

/-- What NT answers the bridge: the loaded strategies, the frames of `ReportProvider`, the
portfolio, and the issuers of `cache.accounts()`. JSON of `jsonDepth` nested containers
fits on the stack. -/
structure NtRuntime where
  strategyIds : List String
  positions : Option DataFrame
  fills : Option DataFrame
  orders : Option DataFrame
  portfolio : Portfolio
  accounts : Except PyError (List (Except PyError String))
  jsonDepth : ℕ

/-- `venues_from_cache`: the distinct issuers that can be read. -/
def venuesFromCache (accounts : Except PyError (List (Except PyError String))) : List String :=
  match accounts with
  | .error _ => []
  | .ok accounts => ((accounts.filterMap Except.toOption).filter (· ≠ "")).eraseDups

inductive BridgeCall where
  | stopStrategy (strategyId : String)
  | startStrategy (strategyId : String)
  | marketExitStrategy (strategyId : String)
  | publish (topic : String) (msg : ByteArray)

structure BridgeActor where
  controlHandle : String
  strategyId : Option String
  pattern : String
  mode : String
  sandboxPersist : Bool

namespace BridgeActor

def init (config : BridgeActorConfig) : BridgeActor where
  controlHandle := config.strategyId
  strategyId := none
  pattern := config.commandTopic ++ ".*"
  mode := config.mode
  sandboxPersist := config.sandboxPersist

/-- `_resolve_strategy_id`: the first loaded strategy, cached. -/
def resolveStrategyId (rt : NtRuntime) (b : BridgeActor) : Option String × BridgeActor :=
  match b.strategyId with
  | some sid => (some sid, b)
  | none =>
    match rt.strategyIds with
    | [] => (none, b)
    | sid :: _ => (some sid, { b with strategyId := some sid })

/-- `_extract_action`; `None` for anything that has no known shape. JSON that is too deep
raises `RecursionError`, which is no `ValueError`. -/
def extractAction (jsonDepth : ℕ) : Value → Except PyError Value
  | .dict kvs => .ok ((Value.dict kvs).get "action")
  | .bytes b => do
    match ← Json.loadsBytesWithin jsonDepth b with
    | some (.dict kvs) => .ok ((Value.dict kvs).get "action")
    | some (.str s) => .ok (.str s)
    | _ => .ok .none
  | .str s =>
    let stripped := strip s
    if startsWith stripped "\x7b" then do
      match ← Json.loadsWithin jsonDepth stripped with
      | none => .ok .none
      | some (.dict kvs) => .ok ((Value.dict kvs).get "action")
      | some _ => .ok (.str stripped)
    else .ok (.str stripped)
  | _ => .ok .none

section
variable (encode : Value → ByteArray)

/-- The snapshot is tagged with the handle, not with the id NT knows the strategy by. -/
def publishPositionsReport (rt : NtRuntime) (b : BridgeActor) : BridgeCall :=
  let (topic, body) := buildPositionsReportPayload encode rt.positions b.controlHandle
    (some rt.portfolio) (venuesFromCache rt.accounts)
  .publish topic body

def publishHistoryReport (rt : NtRuntime) (b : BridgeActor) (kind : String) : BridgeCall :=
  let (df, topic) :=
    if kind = "fills" then (rt.fills, reportTopicFills) else (rt.orders, reportTopicOrders)
  let (outTopic, body) := buildReportPayload encode df topic b.controlHandle
  .publish outTopic body

/-- The branches of `_on_command` behind the checks. -/
def dispatch (rt : NtRuntime) (b : BridgeActor) (action sid : String) : List BridgeCall :=
  if action = "pause" then [.stopStrategy sid]
  else if action = "resume" then [.startStrategy sid]
  else if action = "flatten" then [.marketExitStrategy sid]
  else if action = "report" then [publishPositionsReport encode rt b]
  else if action ∈ ["fills", "orders"] then [publishHistoryReport encode rt b action]
  else []

/-- `_on_command`: the bridge afterwards and its calls. Looking up an action that cannot
be hashed raises. -/
def onCommand (rt : NtRuntime) (b : BridgeActor) (message : Value) :
    Except PyError (BridgeActor × List BridgeCall) := do
  match ← extractAction rt.jsonDepth message with
  | .none => .ok (b, [])
  | action =>
    let known ← action.inNames actions
    if !known then .ok (b, [])
    else
      match action with
      | .str action =>
        if action = "ping" then .ok (b, [])
        else
          match b.resolveStrategyId rt with
          | (none, b) => .ok (b, [])
          | (some sid, b) => .ok (b, dispatch encode rt b action sid)
      | _ => .ok (b, [])

end

end BridgeActor

/-- What the pods rely on in NT: which topics a subscription matches, and the message its
serializer makes of a payload. -/
structure NtBus where
  isMatching : String → String → Bool
  deserialize : ByteArray → Except PyError Value

/-- NT documents `*` and `?` as wildcards. -/
def DocumentedWildcards (isMatching : String → String → Bool) : Prop :=
  ∀ topic pattern, isMatching topic pattern = wildcardMatch pattern.toList topic.toList

/-- The body of a command: `{"action": …, "ts": …}` and the reason, if there is one. -/
def ControlEntry.body (e : ControlEntry) (ts : ℤ) : Value :=
  .dict ([(.str "action", .str e.action), (.str "ts", .int ts)] ++
    e.reason.toList.map fun reason => (.str "reason", .str reason))

structure StrategyPod where
  streams : List Value
  bridge : BridgeActor

namespace StrategyPod

def start (config : TradingNodeConfig) : StrategyPod :=
  ⟨config.messageBus.streams, .init config.controller.config⟩

def handle (p : StrategyPod) : String := p.bridge.controlHandle

variable (nt : NtBus) (encode : Value → ByteArray) (rt : NtRuntime)

/-- NT replays one entry on the bus of the pod. What it cannot decode it drops, and what
the handler raises ends there. -/
def replay (topic : String) (payload : ByteArray) (b : BridgeActor) :
    BridgeActor × List BridgeCall :=
  match nt.deserialize payload with
  | .error _ => (b, [])
  | .ok msg =>
    if nt.isMatching topic b.pattern then
      match b.onCommand encode rt msg with
      | .error _ => (b, [])
      | .ok r => r
    else (b, [])

/-- NT replays an entry once for each listing of its stream. -/
def replayAll (topic : String) (payload : ByteArray) :
    ℕ → BridgeActor → BridgeActor × List BridgeCall
  | 0, b => (b, [])
  | n + 1, b =>
    let (b, calls) := replay nt encode rt topic payload b
    let (b, more) := replayAll topic payload n b
    (b, calls ++ more)

def listings (p : StrategyPod) (key : String) : ℕ := p.streams.countP (·.isStr key)

def receive (p : StrategyPod) (e : ControlEntry) (ts : ℤ) : StrategyPod × List BridgeCall :=
  let (bridge, calls) :=
    replayAll nt encode rt e.topic (encode (e.body ts)) (p.listings e.key) p.bridge
  ({ p with bridge }, calls)

end StrategyPod

inductive Writer where
  | cli
  | notifier
deriving DecidableEq

/-- A command as it is written and, by handle, what NT answers the pods when they read it. -/
structure Command where
  writer : Writer
  strategy : String
  action : String
  reason : Option String
  ts : ℤ
  runtime : String → NtRuntime

def Command.entry (c : Command) : ControlEntry :=
  match c.writer with
  | .cli => publishCommand c.strategy c.action c.reason
  | .notifier => publish c.strategy c.action c.reason

def StrategyPod.obey (nt : NtBus) (encode : Value → ByteArray) (p : StrategyPod) (c : Command) :
    StrategyPod × List BridgeCall :=
  p.receive nt encode (c.runtime p.handle) c.entry c.ts

/-- Every pod reads its streams on its own. -/
def podsStep (nt : NtBus) (encode : Value → ByteArray) (pods : List StrategyPod) (c : Command) :
    List StrategyPod :=
  pods.map fun p => (p.obey nt encode c).1

end TinoHelm

import TinoHelm.Spec.EventLoop
import TinoHelm.Spec.StrategyFile

/-! The `[message_bus]` section of a pod (`config.py`) and the Redis keys it leads to.
NT computes the key of an event itself; what it documents about its layout is
`DocumentedLayout`. -/

namespace TinoHelm
open Base

/-- `urlparse(url)`; reading the port can raise. -/
structure ParsedUrl where
  scheme : String
  hostname : Option String
  port : Except PyError (Option ℕ)
  username : Option String
  password : Option String

structure DatabaseConfig where
  type : String
  host : String
  port : ℕ
  username : Option String
  password : Option String
  ssl : Bool

inductive BusError where
  | unsupportedScheme (redisUrl : Value)
  | config (e : ConfigError)

def BusError.message (repr : Value → String) : BusError → Option String
  | unsupportedScheme redisUrl => some ("unsupported redis URL scheme: " ++ repr redisUrl)
  | config e => e.message repr

def databaseConfigFromUrl (urlparse : Value → Except PyError ParsedUrl) (redisUrl : Value) :
    Except BusError DatabaseConfig := do
  let parsed ← (urlparse redisUrl).mapError (.config ∘ .python)
  if parsed.scheme ≠ "redis" ∧ parsed.scheme ≠ "rediss" then
    .error (.unsupportedScheme redisUrl)
  else
    let port ← parsed.port.mapError (.config ∘ .python)
    .ok {
      type := "redis"
      host := (parsed.hostname.filter (· ≠ "")).getD "localhost"
      port := (port.filter (· ≠ 0)).getD 6379
      username := parsed.username
      password := parsed.password
      ssl := parsed.scheme = "rediss" }

/-- `MessageBusConfig`; the constructor takes the values as they come. -/
structure MessageBusConfig where
  database : DatabaseConfig
  encoding : Value
  timestampsAsIso8601 : Value
  bufferIntervalMs : Value
  autotrimMins : Value
  useTraderPrefix : Value
  useTraderId : Value
  useInstanceId : Value
  streamsPrefix : Value
  streamPerTopic : Value
  externalStreams : Value
  typesFilter : Option (List String)

/-- `raw.get("message_bus", {})`, whose `get` is called next. -/
def messageBusSection (raw : Value) : Except ConfigError Value :=
  match raw.lookup? "message_bus" with
  | none => .ok (.dict [])
  | some (.dict kvs) => .ok (.dict kvs)
  | some _ => .error .attributeError

/-- What the process environment gives `build_message_bus_config`. -/
structure BusEnv where
  redisUrl : Option String
  urlparse : Value → Except PyError ParsedUrl

def buildMessageBusConfig (env : BusEnv) (raw : Value) (externalStreams : Option (List Value))
    (filterL2Book : Bool) : Except BusError MessageBusConfig := do
  let sec ← (messageBusSection raw).mapError .config
  let redisUrl := match env.redisUrl.filter (· ≠ "") with
    | some url => .str url
    | none => sec.getOr "redis_url" (.str "redis://redis:6379/0")
  let db ← databaseConfigFromUrl env.urlparse redisUrl
  .ok {
    database := db
    encoding := sec.getOr "encoding" (.str "msgpack")
    timestampsAsIso8601 := sec.getOr "timestamps_as_iso8601" (.bool true)
    bufferIntervalMs := sec.getOr "buffer_interval_ms" (.int 100)
    autotrimMins := sec.getOr "autotrim_mins" (.int 60)
    useTraderPrefix := sec.getOr "use_trader_prefix" (.bool true)
    useTraderId := sec.getOr "use_trader_id" (.bool true)
    useInstanceId := sec.getOr "use_instance_id" (.bool false)
    streamsPrefix := sec.getOr "streams_prefix" (.str "stream")
    streamPerTopic := sec.getOr "stream_per_topic" (.bool true)
    externalStreams := (externalStreams.map Value.list).getD (sec.get "external_streams")
    typesFilter := if filterL2Book then some ["OrderBookDelta", "OrderBookDeltas"] else none }

def eventStreamKey (traderId streamsPrefix : String) : String :=
  "trader-" ++ traderId ++ ":" ++ streamsPrefix

/-- NT's layout as `event_stream_key` documents it. `streamKey` is NT's `get_stream_key`:
the configuration, the trader id and the topic of the event. -/
def DocumentedLayout (streamKey : MessageBusConfig → String → String → String) : Prop :=
  ∀ (bus : MessageBusConfig) (traderId topic streamsPrefix : String),
    bus.useTraderPrefix = .bool true → bus.useTraderId = .bool true →
    bus.useInstanceId = .bool false → bus.streamsPrefix = .str streamsPrefix →
    (bus.streamPerTopic = .bool false →
      streamKey bus traderId topic = eventStreamKey traderId streamsPrefix) ∧
    (bus.streamPerTopic = .bool true →
      streamKey bus traderId topic = eventStreamKey traderId streamsPrefix ++ ":" ++ topic)

def localRedis : BusEnv := ⟨none, fun _ => .ok ⟨"redis", some "redis", .ok (some 6379), none, none⟩⟩

def exampleMessageBus : Value :=
  .dict [(.str "redis_url", .str "redis://redis:6379/0"), (.str "encoding", .str "msgpack"),
    (.str "streams_prefix", .str "stream"), (.str "stream_per_topic", .bool false),
    (.str "autotrim_mins", .int 60), (.str "external_streams", .list [])]

/-- The section is absent, or holds some of the keys of the example with its values. -/
def PartOfExample (raw : Value) : Prop :=
  ∃ sec, messageBusSection raw = .ok sec ∧
    ∀ key v, sec.lookup? key = some v → exampleMessageBus.lookup? key = some v

/-- The file says itself that its pod writes one stream. -/
def SetsStreamPerTopic (raw : Value) : Prop :=
  ∃ sec, messageBusSection raw = .ok sec ∧ (sec.lookup? "stream_per_topic").isSome

end TinoHelm

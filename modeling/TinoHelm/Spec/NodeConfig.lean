import TinoHelm.Spec.ClientConfigs

/-! `build_trading_node_config` (`config.py`) in full: every section of a strategy file and
what the mode of the pod makes of it. NT's engine defaults and log lines are left out. -/

namespace TinoHelm
open Base

structure CacheConfig where
  database : DatabaseConfig
  encoding : Value
  timestampsAsIso8601 : Value
  bufferIntervalMs : Value
  flushOnStart : Value

/-- `raw.get("cache")`: nothing, or what `get` is called on. -/
def cacheSection (raw : Value) : Except ConfigError (Option Value) :=
  let sec := raw.get "cache"
  if !sec.truthy then .ok none
  else if sec.isDict then .ok (some sec)
  else .error .attributeError

def buildCacheConfig (env : BusEnv) (raw : Value) (mode : String) (sandboxPersist : Bool) :
    Except BusError (Option CacheConfig) := do
  match ← (cacheSection raw).mapError .config with
  | none => .ok none
  | some sec =>
    let redisUrl := match env.redisUrl.filter (· ≠ "") with
      | some url => .str url
      | none => sec.getOr "redis_url" (.str "redis://redis:6379/0")
    let defaultFlush := mode = "sandbox" && !sandboxPersist
    let db ← databaseConfigFromUrl env.urlparse redisUrl
    .ok (some {
      database := db
      encoding := sec.getOr "encoding" (.str "msgpack")
      timestampsAsIso8601 := sec.getOr "timestamps_as_iso8601" (.bool true)
      bufferIntervalMs := sec.getOr "buffer_interval_ms" (.int 100)
      flushOnStart := sec.getOr "flush_on_start" (.bool defaultFlush) })

/-- `_optional_interval`: the text `none` in any case is `None`. -/
def optionalInterval : Value → Value
  | .str s => if (strip s).toLower = "none" then .none else .str s
  | v => v

structure LiveExecEngineConfig where
  reconciliation : Bool
  openCheckIntervalSecs : Value
  positionCheckIntervalSecs : Value
  snapshotOrders : Value
  snapshotPositions : Value

def buildExecEngineConfig (raw : Value) (mode : String) : Except ConfigError LiveExecEngineConfig :=
  (tomlSection "exec" raw).map fun sec =>
    let isSandbox : Bool := mode = "sandbox"
    { reconciliation := !isSandbox
      openCheckIntervalSecs :=
        if isSandbox then .none
        else optionalInterval (sec.getOr "open_check_interval_secs" (.float (.fin 10)))
      positionCheckIntervalSecs :=
        if isSandbox then .none
        else optionalInterval (sec.getOr "position_check_interval_secs" (.float (.fin 60)))
      snapshotOrders := sec.getOr "snapshot_orders" (.bool false)
      snapshotPositions := sec.getOr "snapshot_positions" (.bool false) }

structure LoggingConfig where
  logLevel : Value
  logColors : Value
  bypassLogging : Value

def buildLoggingConfig (tinoLogLevel : Option String) (raw : Value) :
    Except ConfigError LoggingConfig :=
  (tomlSection "logging" raw).map fun sec =>
    { logLevel := match tinoLogLevel.filter (· ≠ "") with
        | some level => .str level
        | none => sec.getOr "log_level" (.str "INFO")
      logColors := sec.getOr "log_colors" (.bool true)
      bypassLogging := sec.getOr "bypass_logging" (.bool false) }

structure ImportableActorConfig where
  actorPath : Value
  configPath : Value
  config : Value

def reportingImport (strategyId : String) (sec : Value) : ImportableActorConfig where
  actorPath := .str "tinohelm.reporting_actor:ReportingActor"
  configPath := .str "tinohelm.reporting_actor:ReportingActorConfig"
  config := .dict [(.str "strategy_id", .str strategyId),
    (.str "interval_minutes", sec.getOr "interval_minutes" (.int 30)), (.str "enabled", .bool true)]

def feederImport : ImportableActorConfig where
  actorPath := .str "tinohelm.sandbox_book_feeder:SandboxBookFeeder"
  configPath := .str "tinohelm.sandbox_book_feeder:SandboxBookFeederConfig"
  config := .dict []

def extraImport (extra : Value) : Except PyError ImportableActorConfig := do
  let actorPath ← subscript extra "class"
  .ok {
    actorPath
    configPath := extra.getOr "config_class" (.str "nautilus_trader.common.config:ActorConfig")
    config := extra.getOr "params" (.dict []) }

def fileActors (file : TinoStrategyFile) : Except ConfigError (List ImportableActorConfig) := do
  let sec ← tomlSection "reporting" file.raw
  let reporting := if (sec.getOr "enabled" (.bool true)).truthy then
    [reportingImport file.strategyId sec] else []
  let extras ← (((file.raw.lookup? "actors").getD (.list [])).toList).mapError .python
  let extras ← (extras.mapM extraImport).mapError .python
  .ok (reporting ++ extras)

def buildActorImports (file : TinoStrategyFile) : Except ConfigError (List ImportableActorConfig) := do
  let actors ← fileActors file
  if ← sandboxFillFuelOn file.mode file.raw then .ok (actors ++ [feederImport])
  else if file.mode = "sandbox" then
    -- `persist` is only read for a warning
    let _ ← sandboxPersist file.raw
    .ok actors
  else .ok actors

/-- What the process and NT supply. `traderId` is the constructor of `TraderId`. -/
structure NodeEnv (Cls Inst : Type) where
  bus : BusEnv
  environ : String → Option String
  library : NtLibrary Cls Inst
  accepts : SandboxExecutionClientConfig Inst → Except String Unit
  traderId : Value → Except String String

structure NodeConfig (Inst : Type) extends TradingNodeConfig where
  traderId : String
  cache : Option CacheConfig
  logging : LoggingConfig
  execEngine : LiveExecEngineConfig
  actors : List ImportableActorConfig
  strategies : List ImportableStrategyConfig
  dataClients : List (Value × ClientConfig Inst)
  execClients : List (Value × ExecClientConfig Inst)
  loadState : Value
  saveState : Value

/-- `raw.get("recovery", {}).get("enabled", mode != "sandbox" or persist)` -/
def recoveryEnabled (file : TinoStrategyFile) (persist : Bool) : Except ConfigError Value :=
  (tomlSection "recovery" file.raw).map fun sec =>
    sec.getOr "enabled" (.bool (file.mode ≠ "sandbox" || persist))

variable {Cls Inst : Type}

/-- `build_trading_node_config`; the arguments of the constructor are computed in turn. -/
def buildNodeConfig (env : NodeEnv Cls Inst) (file : TinoStrategyFile) :
    Except (NodeError Cls) (NodeConfig Inst) := do
  let streams ← (userStreams file.raw).mapError .ofConfig
  let persist ← (sandboxPersist file.raw).mapError .ofConfig
  let recovery ← (recoveryEnabled file persist).mapError .ofConfig
  let traderId ← (env.traderId file.traderId).mapError .library
  let filterL2Book ← (sandboxFillFuelOn file.mode file.raw).mapError .ofConfig
  let messageBus ← (buildMessageBusConfig env.bus file.raw
    (some (withControlStream streams file.strategyId)) filterL2Book).mapError .bus
  let cache ← (buildCacheConfig env.bus file.raw file.mode persist).mapError .bus
  let logging ← (buildLoggingConfig (env.environ "TINO_LOG_LEVEL") file.raw).mapError .ofConfig
  let execEngine ← (buildExecEngineConfig file.raw file.mode).mapError .ofConfig
  let actors ← (buildActorImports file).mapError .ofConfig
  let controller ← (buildControllerImport file).mapError .ofConfig
  let strategies ← (buildStrategyImports file).mapError .ofConfig
  let dataClients ← buildDataClients env.library env.environ file
  let execClients ← buildExecClients env.library env.environ env.accepts file
  .ok {
    messageBus, controller, traderId, cache, logging, execEngine, actors, strategies, dataClients
    execClients, loadState := recovery, saveState := recovery }

end TinoHelm

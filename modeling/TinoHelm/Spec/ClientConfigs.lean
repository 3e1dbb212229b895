import TinoHelm.Base.Expand
import TinoHelm.Spec.Bridge

/-! The venue clients of a pod (`config.py`) and their factories (`strategy_runner.py`): what
becomes of `[data_clients]`, `[exec_clients]` and `[factories]` in each of the two modes.
Importing a class, converting a table into one of NT's types and constructing one is NT's
and msgspec's work; it is a parameter. -/

namespace TinoHelm
open Base

/-- `raw.get(name, {})`, whose `get` or `items` is called next. -/
def tomlSection (name : String) (raw : Value) : Except ConfigError Value :=
  match raw.lookup? name with
  | none => .ok (.dict [])
  | some (.dict kvs) => .ok (.dict kvs)
  | some _ => .error .attributeError

mutual

/-- `_resolve_env_refs` -/
def resolveEnvRefs (environ : String → Option String) : Value → Value
  | .dict kvs => .dict (resolveDict environ kvs)
  | .list xs => .list (resolveList environ xs)
  | .str s =>
    if startsWith s "$ENV:" then .str ((environ (String.ofList (s.toList.drop 5))).getD "")
    else .str (expandVars environ s)
  | v => v

def resolveList (environ : String → Option String) : List Value → List Value
  | [] => []
  | x :: xs => resolveEnvRefs environ x :: resolveList environ xs

def resolveDict (environ : String → Option String) : List (Value × Value) → List (Value × Value)
  | [] => []
  | (k, v) :: kvs => (k, resolveEnvRefs environ v) :: resolveDict environ kvs

end

/-- Classes by what `getattr` answers, instances as NT holds them. `load` imports a module
and takes a name from it. An exception is given by its text. -/
structure NtLibrary (Cls Inst : Type) where
  load : String → String → Except String Cls
  isProviderConfig : Cls → Except String Bool
  isDataFactory : Cls → Except String Bool
  isExecFactory : Cls → Except String Bool
  instrumentId : Value → Except String String
  construct : Cls → List (Value × Value) → Option (List String) → Except String Inst
  convert : Value → Cls → Except String Inst
  replaceProvider : Inst → Inst → Except String Inst

inductive NodeError (Cls : Type) where
  | bus (e : BusError)
  | python (e : PyError)
  | library (message : String)
  | configClassForm (classPath : Value)
  | factoryClassForm (classPath : Value)
  | notProvider (path : Value) (cls : Cls)
  | notDataFactory (fq : Value)
  | notExecFactory (cls : Cls)

/-- The texts of this program's own exceptions; `reprCls` and `strCls` show a class. -/
def NodeError.message {Cls : Type} (repr : Value → String) (reprCls strCls : Cls → String) :
    NodeError Cls → Option String
  | bus e => e.message repr
  | python _ => none
  | library message => some message
  | configClassForm classPath =>
    some ("config class must be in 'pkg.mod:Class' form, got " ++ repr classPath)
  | factoryClassForm classPath =>
    some ("factory class must be in 'pkg.mod:Class' form, got " ++ repr classPath)
  | notProvider path cls =>
    some ("instrument_provider path " ++ repr path ++
      " does not resolve to an InstrumentProviderConfig subclass (got " ++ reprCls cls ++ ")")
  | notDataFactory fq =>
    some ("data factory " ++ repr fq ++ " is not a LiveDataClientFactory subclass")
  | notExecFactory cls =>
    some ("exec factory is not a LiveExecClientFactory subclass: " ++ strCls cls)

variable {Cls Inst : Type}

def NodeError.ofConfig (e : ConfigError) : NodeError Cls := .bus (.config e)

section
variable (nt : NtLibrary Cls Inst)

/-- `_load_config_cls` and `_load_factory`, which differ in their message: `":" not in x`
raises on what is neither a text nor a container. -/
def loadClass (form : Value → NodeError Cls) (classPath : Value) : Except (NodeError Cls) Cls :=
  match classPath with
  | .str s =>
    if ':' ∈ s.toList then
      (nt.load (String.ofList (s.toList.takeWhile (· ≠ ':')))
        (String.ofList ((s.toList.dropWhile (· ≠ ':')).drop 1))).mapError .library
    else .error (form classPath)
  | .list xs =>
    if xs.any (·.isStr ":") then .error (.python .attributeError) else .error (form classPath)
  | .dict kvs =>
    if kvs.any (·.1.isStr ":") then .error (.python .attributeError) else .error (form classPath)
  | _ => .error (.python .typeError)

def loadConfigCls (classPath : Value) : Except (NodeError Cls) Cls :=
  loadClass nt .configClassForm classPath

def loadFactory (classPath : Value) : Except (NodeError Cls) Cls :=
  loadClass nt .factoryClassForm classPath

def withoutKey (key : String) (kvs : List (Value × Value)) : List (Value × Value) :=
  kvs.filter fun kv => !kv.1.isStr key

def subscript (d : Value) (key : String) : Except PyError Value :=
  match d with
  | .dict kvs =>
    match (Value.dict kvs).lookup? key with
    | some v => .ok v
    | none => .error .keyError
  | _ => .error .typeError

/-- An `instrument_provider` section that names its class. -/
def namesProvider (sec : Value) : Bool := (sec.lookup? "path").isSome

/-- `_build_instrument_provider` of a section that names its class. -/
def buildInstrumentProvider (sec : Value) : Except (NodeError Cls) Inst := do
  let path := sec.get "path"
  let cls ← loadConfigCls nt path
  if !(← (nt.isProviderConfig cls).mapError .library) then .error (.notProvider path cls)
  else
    let kwargs := match sec with
      | .dict kvs => withoutKey "path" kvs
      | _ => []
    match (Value.dict kwargs).get "load_ids" with
    | .none => (nt.construct cls kwargs none).mapError .library
    | ids =>
      let ids ← ids.toList.mapError .python
      let ids ← (ids.mapM nt.instrumentId).mapError .library
      (nt.construct cls (withoutKey "load_ids" kwargs) (some ids.dedup)).mapError .library

/-- A venue's client as NT gets it: its section, for NT to decode, or an instance. -/
inductive ClientConfig (Inst : Type) where
  | passthrough (v : Value)
  | instance (base provider client : Inst)

/-- The provider section of a client's payload, if it names its class. -/
def providerSection (payload : Value) : Option Value :=
  let sec := (payload.get "config").get "instrument_provider"
  if namesProvider sec then some sec else none

/-- `_upgrade_client_config` -/
def upgradeClientConfig (resolved : Value) : Except (NodeError Cls) (ClientConfig Inst) :=
  match providerSection resolved with
  | none => .ok (.passthrough resolved)
  | some provider => do
    let cls ← loadConfigCls nt (← (subscript resolved "path").mapError .python)
    let configDict := match resolved.get "config" with
      | .dict kvs => withoutKey "instrument_provider" kvs
      | _ => []
    let base ← (nt.convert (.dict configDict) cls).mapError .library
    let provider ← buildInstrumentProvider nt provider
    let client ← (nt.replaceProvider base provider).mapError .library
    .ok (.instance base provider client)

variable (environ : String → Option String)

def venues (name : String) (raw : Value) : Except ConfigError (List (Value × Value)) :=
  (tomlSection name raw).map fun
    | .dict kvs => kvs
    | _ => []

def upgradeAll (members : List (Value × Value)) :
    Except (NodeError Cls) (List (Value × ClientConfig Inst)) :=
  members.mapM fun m => do .ok (m.1, ← upgradeClientConfig nt (resolveEnvRefs environ m.2))

def buildDataClients (file : TinoStrategyFile) :
    Except (NodeError Cls) (List (Value × ClientConfig Inst)) := do
  upgradeAll nt environ (← (venues "data_clients" file.raw).mapError .ofConfig)

/-- `_data_client_provider` -/
def dataClientProvider (file : TinoStrategyFile) (venue : Value) :
    Except (NodeError Cls) (Option Inst) := do
  let clients ← (venues "data_clients" file.raw).mapError .ofConfig
  match (clients.find? fun m => m.1.eq venue).map Prod.snd with
  | some (.dict kvs) =>
    match providerSection (resolveEnvRefs environ (.dict kvs)) with
    | some provider => (buildInstrumentProvider nt provider).map some
    | none => .ok none
  | _ => .ok none

/-- The fields `SandboxExecutionClientConfig` is converted from, and the provider it gets. -/
structure SandboxExecutionClientConfig (Inst : Type) where
  venue : Value
  startingBalances : Value
  baseCurrency : Value
  omsType : Value
  accountType : Value
  bookType : Value
  defaultLeverage : Value
  barExecution : Value
  tradeExecution : Value
  useReduceOnly : Value
  instrumentProvider : Option Inst

inductive ExecClientConfig (Inst : Type) where
  | client (c : ClientConfig Inst)
  | sandbox (c : SandboxExecutionClientConfig Inst)

def payloadGetOr (payload : Value) (key : String) (default : Value) : Except ConfigError Value :=
  match payload with
  | .dict kvs => .ok ((Value.dict kvs).getOr key default)
  | _ => .error .attributeError

/-- The loop of `build_exec_clients` in sandbox mode. `accepts` is `msgspec.convert`. -/
def sandboxClient (accepts : SandboxExecutionClientConfig Inst → Except String Unit)
    (file : TinoStrategyFile) (sec : Value) (m : Value × Value) :
    Except (NodeError Cls) (Value × ExecClientConfig Inst) := do
  let own ← (payloadGetOr m.2 "starting_balances" (.list [.str "100000 USDT"])).mapError .ofConfig
  let kwargs : SandboxExecutionClientConfig Inst := {
    venue := m.1
    startingBalances := sec.getOr "starting_balances" own
    baseCurrency := sec.get "base_currency"
    omsType := sec.getOr "oms_type" (.str "NETTING")
    accountType := sec.getOr "account_type" (.str "MARGIN")
    bookType := sec.getOr "book_type" (.str "L1_MBP")
    defaultLeverage := sec.getOr "default_leverage" (.float (.fin 1))
    barExecution := sec.getOr "bar_execution" (.bool true)
    tradeExecution := sec.getOr "trade_execution" (.bool true)
    useReduceOnly := sec.getOr "use_reduce_only" (.bool true)
    instrumentProvider := none }
  (accepts kwargs).mapError .library
  let provider ← dataClientProvider nt environ file m.1
  .ok (m.1, .sandbox { kwargs with instrumentProvider := provider })

def buildExecClients (accepts : SandboxExecutionClientConfig Inst → Except String Unit)
    (file : TinoStrategyFile) : Except (NodeError Cls) (List (Value × ExecClientConfig Inst)) := do
  let members ← (venues "exec_clients" file.raw).mapError .ofConfig
  if file.mode = "live" then
    (upgradeAll nt environ members).map fun clients => clients.map fun c => (c.1, .client c.2)
  else
    let sec ← (sandboxSection file.raw).mapError .ofConfig
    members.mapM (sandboxClient nt environ accepts file sec)

inductive Registration (Cls : Type) where
  | data (venue : Value) (cls : Cls)
  | exec (venue : Value) (cls : Cls)
  | sandboxExec (venue : Value)

def dataRegistration (m : Value × Value) : Except (NodeError Cls) (Registration Cls) := do
  let cls ← loadFactory nt m.2
  if ← (nt.isDataFactory cls).mapError .library then .ok (.data m.1 cls)
  else .error (.notDataFactory m.2)

def execRegistration (mode : String) (m : Value × Value) :
    Except (NodeError Cls) (Registration Cls) :=
  if mode = "sandbox" then .ok (.sandboxExec m.1)
  else do
    let cls ← loadFactory nt m.2
    if ← (nt.isExecFactory cls).mapError .library then .ok (.exec m.1 cls)
    else .error (.notExecFactory cls)

/-- `_register_factories`: the registrations in their order. -/
def registerFactories (file : TinoStrategyFile) :
    Except (NodeError Cls) (List (Registration Cls)) := do
  let factories ← (tomlSection "factories" file.raw).mapError .ofConfig
  let dataFactories ← (venues "data" factories).mapError .ofConfig
  let execFactories ← (venues "exec" factories).mapError .ofConfig
  let data ← dataFactories.mapM (dataRegistration nt)
  let exec ← execFactories.mapM (execRegistration nt file.mode)
  .ok (data ++ exec)

end
end TinoHelm

import TinoHelm.Base.Retention
import TinoHelm.Spec.Bridge
import TinoHelm.Spec.Discovery
import TinoHelm.Spec.NodeConfig

/-! The pods of one Redis: `main` of `strategy_runner.py` announces a pod and starts it, and
the report commands of `cli.py` fan out to the pods that were announced last. -/

namespace TinoHelm
open Base

def announceMaxlen : ℕ := 1000

/-- redis-py on the value of a field; it refuses what is no text, number or bytes. -/
def redisField (repr : Value → String) : Value → Option ByteArray
  | .bytes b => some b
  | .int n => some (repr (.int n)).toByteArray
  | .float x => some (repr (.float x)).toByteArray
  | .str s => some s.toByteArray
  | _ => none

/-- The entry `publish_announce` adds to the announce stream. -/
def announceEntry (repr : Value → String) (file : TinoStrategyFile) (ntVersion : String)
    (tsMs : ℕ) : Option Fields :=
  (publishAnnounce file ntVersion tsMs).mapM fun f => (redisField repr f.2).map fun b => (f.1, b)

/-- The file `main` reads, from its two arguments. -/
def mainPath (strategyId config : Option String) : Option String :=
  match strategyId.filter (· ≠ "") with
  | some id => some ("strategies/" ++ id ++ "/tinohelm.toml")
  | none => config.filter (· ≠ "")

/-- A call of `main`: its arguments, the TOML files there are, and what process, Redis and
NT contribute. Redis drops up to `trim` of the oldest announces. -/
structure Boot (Cls Inst : Type) where
  strategyId : Option String
  config : Option String
  files : String → Option Value
  loadEnv : LoadEnv
  node : NodeEnv Cls Inst
  ntVersion : String
  tsMs : ℕ
  redisUp : Bool
  trim : ℕ
  ntBuilds : Bool

namespace Boot

variable {Cls Inst : Type}

def file? (b : Boot Cls Inst) : Option TinoStrategyFile := do
  let path ← mainPath b.strategyId b.config
  (TinoStrategyFile.load b.loadEnv path (← b.files path)).toOption

def announced (repr : Value → String) (b : Boot Cls Inst) : Option Fields :=
  if b.redisUp then b.file?.bind fun file => announceEntry repr file b.ntVersion b.tsMs else none

/-- The pod that runs once the node is configured, registered and built. -/
def pod? (b : Boot Cls Inst) : Option StrategyPod := do
  let file ← b.file?
  let config ← (buildNodeConfig b.node file).toOption
  let _ ← (registerFactories b.node.library file).toOption
  if b.ntBuilds then some (.start config.toTradingNodeConfig) else none

end Boot

structure Fleet where
  stream : List Fields
  pods : List StrategyPod

inductive FleetOp (Cls Inst : Type) where
  | boot (b : Boot Cls Inst)
  | exit (i : ℕ)
  | command (c : Command)

section
variable {Cls Inst : Type} (nt : NtBus) (encode : Value → ByteArray) (repr : Value → String)

/-- A pod announces itself before it is built, and stays announced if that fails. -/
def fleetStep (f : Fleet) : FleetOp Cls Inst → Fleet
  | .boot b =>
    { stream := match b.announced repr with
        | some fields => pushCapped announceMaxlen b.trim f.stream fields
        | none => f.stream
      pods := f.pods ++ b.pod?.toList }
  | .exit i => { f with pods := f.pods.eraseIdx i }
  | .command c => { f with pods := podsStep nt encode f.pods c }

def fleetAfter (ops : List (FleetOp Cls Inst)) : Fleet := run (fleetStep nt encode repr) ⟨[], []⟩ ops

end

/-! `_fan_out_command` of `cli.py`. -/

def noStrategiesYet : String := "no strategies known yet (have any pods announced themselves?)"

/-- Entries for control streams, or a text. -/
inductive FanOut where
  | published (entries : List ControlEntry)
  | echoed (text : String)

/-- One turn of the loop over the entries of `XREVRANGE`. -/
def noteId (seen : Dict String Unit) (fields : Fields) : Except PyError (Dict String Unit) :=
  match fields.lookup "strategy_id" with
  | none => .ok seen
  | some sid => do .ok (seen.setdefault (← decodeUtf8 sid) ())

def announcedIds (newestFirst : List Fields) : Except PyError (List String) := do
  let seen ← newestFirst.foldlM noteId .empty
  .ok seen.keys

def fanOutCommand (stream : List Fields) (action : String) (strategyId : Option String) :
    Except PyError FanOut :=
  match strategyId.filter (· ≠ "") with
  | some sid => .ok (.published [publishCommand sid action none])
  | none => do
    let seen ← announcedIds (stream.reverse.take 1000)
    if seen.isEmpty then .ok (.echoed noStrategiesYet)
    else .ok (.published (seen.map fun sid => publishCommand sid action none))

def StrategyPod.calls (nt : NtBus) (encode : Value → ByteArray) (p : StrategyPod)
    (cs : List Command) : List BridgeCall :=
  trace (fun p c => (p.obey nt encode c).1) (fun p c => (p.obey nt encode c).2) p cs

end TinoHelm

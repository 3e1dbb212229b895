import TinoHelm.Spec.Registry

/-! From a strategy file to the pod's two identities: the handle it announces, and the
order id tag that NT makes part of its `StrategyId`. -/

namespace TinoHelm
open Base

/-- The environment variables `TinoStrategyFile.load` reads. -/
structure LoadEnv where
  tinoMode : Option String
  tinoTraderId : Option String

structure TinoStrategyFile where
  raw : Value
  path : String
  strategyId : String
  traderId : Value
  mode : String
  commandTopic : String

inductive ConfigError where
  | required (path key : String)
  | strategyMode (path : String) (mode : Value)
  | python (e : PyError)
  | attributeError

def ConfigError.message (repr : Value → String) : ConfigError → Option String
  | required path key => some (path ++ ": required string field [strategy]." ++ key ++ " missing")
  | strategyMode path mode =>
    some (path ++ ": strategy.mode must be 'live' or 'sandbox', got " ++ repr mode)
  | python _ | attributeError => none

/-- `raw.get("strategy", {})`, whose `get` is called next. -/
def strategySection (raw : Value) : Except ConfigError Value :=
  match raw.lookup? "strategy" with
  | none => .ok (.dict [])
  | some (.dict kvs) => .ok (.dict kvs)
  | some _ => .error .attributeError

def requiredStr (sec : Value) (key path : String) : Except ConfigError String :=
  match sec.get key with
  | .str s => if s = "" then .error (.required path key) else .ok s
  | _ => .error (.required path key)

/-- `mode not in {"live", "sandbox"}` raises on what cannot be hashed. -/
def checkMode (path : String) : Value → Except ConfigError String
  | .str s =>
    if s = "live" ∨ s = "sandbox" then .ok s else .error (.strategyMode path (.str s))
  | .list _ | .dict _ => .error (.python .typeError)
  | mode => .error (.strategyMode path mode)

/-- `TinoStrategyFile.load`, behind the TOML decoder. -/
def TinoStrategyFile.load (env : LoadEnv) (path : String) (raw : Value) :
    Except ConfigError TinoStrategyFile := do
  let sec ← strategySection raw
  let strategyId ← requiredStr sec "id" path
  let traderId :=
    if (sec.get "trader_id").truthy then sec.get "trader_id"
    else .str (env.tinoTraderId.getD "TINO-001")
  let mode ← checkMode path (match env.tinoMode.filter fun m => m ≠ "" with
    | some m => .str m
    | none => (sec.lookup? "mode").getD (.str "live"))
  .ok ⟨raw, path, strategyId, traderId, mode, "commands.tinohelm." ++ strategyId⟩

/-- An element of the argument of `dict`: what iterates over a key and a value. -/
def asPair : Value → Except PyError (Value × Value)
  | .list [k, v] => .ok (k, v)
  | .dict [(k, _), (v, _)] => .ok (k, v)
  | .str s =>
    match s.toList with
    | [k, v] => .ok (.str (String.singleton k), .str (String.singleton v))
    | _ => .error .valueError
  | .bytes b =>
    match b.toList with
    | [k, v] => .ok (.int k.toNat, .int v.toNat)
    | _ => .error .valueError
  | .list _ | .dict _ => .error .valueError
  | _ => .error .typeError

def hashedPair (kv : Value × Value) : Except PyError (HashKey × Value) := do
  .ok (← kv.1.hash, kv.2)

def toDict (x : Value) : Except PyError (Dict HashKey Value) := do
  let pairs ← match x with
    | .dict kvs => kvs.mapM hashedPair
    | .list xs => xs.mapM fun x => do hashedPair (← asPair x)
    | .str s => if s = "" then .ok [] else .error .valueError
    | .bytes b => if b.size = 0 then .ok [] else .error .typeError
    | _ => .error .typeError
  .ok (.ofList pairs)

def strategyParams (sec : Value) : Except ConfigError (Dict HashKey Value) :=
  (toDict ((sec.lookup? "params").getD (.dict []))).mapError .python

structure ImportableStrategyConfig where
  strategyPath : String
  configPath : Value
  config : Dict HashKey Value

def buildStrategyImports (file : TinoStrategyFile) :
    Except ConfigError (List ImportableStrategyConfig) := do
  let sec ← strategySection file.raw
  let params ← strategyParams sec
  let params := params.setdefault (.str "order_id_tag")
    ((sec.lookup? "order_id_tag").getD (.str file.strategyId))
  let strategyPath ← requiredStr sec "class" file.path
  .ok [⟨strategyPath, (sec.lookup? "config_class").getD
    (.str "nautilus_trader.trading.config:StrategyConfig"), params⟩]

/-- The `order_id_tag` of NT's `StrategyConfig`, a string field. -/
def ImportableStrategyConfig.orderIdTag (config : ImportableStrategyConfig) : Option String :=
  match config.config.get? (.str "order_id_tag") with
  | some (.str tag) => some tag
  | _ => none

def tinoProtocolVersion : String := "1"

/-- The fields `publish_announce` adds to the announce stream. -/
def publishAnnounce (file : TinoStrategyFile) (ntVersion : String) (tsMs : ℕ) :
    List (String × Value) :=
  [("strategy_id", .str file.strategyId), ("mode", .str file.mode), ("trader_id", file.traderId),
    ("ts", .str (toString tsMs)), ("nt_version", .str ntVersion),
    ("tino_protocol_version", .str tinoProtocolVersion)]

/-- The tag a file sets itself, in `[strategy.params]` or else in `[strategy]`. -/
def TinoStrategyFile.ownTag (file : TinoStrategyFile) : Option Value :=
  match strategySection file.raw with
  | .error _ => none
  | .ok sec =>
    match strategyParams sec with
    | .error _ => none
    | .ok params => (params.get? (.str "order_id_tag")).or (sec.lookup? "order_id_tag")

/-! What an accepted file is like. -/

theorem requiredStr_ok {sec : Value} {key path s : String} (h : requiredStr sec key path = .ok s) :
    sec.get key = .str s ∧ s ≠ "" := by
  unfold requiredStr at h
  split at h
  · rename_i t ht
    split_ifs at h with he
    obtain rfl := Except.ok.inj h
    exact ⟨ht, he⟩
  · cases h

theorem checkMode_ok {path s : String} {mode : Value} (h : checkMode path mode = .ok s) :
    s = "live" ∨ s = "sandbox" := by
  unfold checkMode at h
  split at h
  · split_ifs at h with hm
    obtain rfl := Except.ok.inj h
    exact hm
  · cases h
  · cases h
  · cases h

/-- `load` keeps the table, checks the handle and takes one of the two modes. -/
theorem TinoStrategyFile.load_ok {env : LoadEnv} {path : String} {raw : Value}
    {file : TinoStrategyFile} (h : load env path raw = .ok file) :
    file.raw = raw ∧ file.strategyId ≠ "" ∧ (file.mode = "live" ∨ file.mode = "sandbox") ∧
      file.commandTopic = "commands.tinohelm." ++ file.strategyId := by
  simp only [load, bind_eq_ok] at h
  obtain ⟨sec, -, strategyId, hid, mode, hm, h⟩ := h
  obtain rfl := Except.ok.inj h
  exact ⟨rfl, (requiredStr_ok hid).2, checkMode_ok hm, rfl⟩

/-- The tag in force is the file's own one, else the handle. -/
theorem buildStrategyImports_tag {file : TinoStrategyFile} {config : ImportableStrategyConfig}
    (h : buildStrategyImports file = .ok [config]) :
    config.config.get? (.str "order_id_tag") = some (file.ownTag.getD (.str file.strategyId)) := by
  simp only [buildStrategyImports, bind_eq_ok] at h
  obtain ⟨sec, hs, params, hp, strategyPath, -, h⟩ := h
  obtain rfl := List.head_eq_of_cons_eq (Except.ok.inj h)
  simp only [TinoStrategyFile.ownTag, hs, hp, Dict.get?_setdefault, if_true]
  cases params.get? (.str "order_id_tag") <;> simp

end TinoHelm

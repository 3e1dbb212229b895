import TinoHelm.Spec.NodeConfig

/-! What the mode of a pod makes of its file. In sandbox mode nothing of the venue's own
execution clients and factories gets into the node, and what drives the simulation hangs
together; in live mode the `[sandbox]` section says nothing. -/

namespace TinoHelm
open Base

variable {Cls Inst : Type} {env : NodeEnv Cls Inst} {file file' : TinoStrategyFile}
  {cfg : NodeConfig Inst}

theorem buildMessageBusConfig_typesFilter {benv : BusEnv} {raw : Value}
    {streams : Option (List Value)} {filter : Bool} {bus : MessageBusConfig}
    (h : buildMessageBusConfig benv raw streams filter = .ok bus) :
    bus.typesFilter.isSome = filter := by
  simp only [buildMessageBusConfig, bind_eq_ok] at h
  obtain ⟨sec, -, db, -, h⟩ := h
  obtain rfl := Except.ok.inj h
  cases filter <;> rfl

theorem buildControllerImport_ok {controller : ImportableControllerConfig}
    (h : buildControllerImport file = .ok controller) :
    sandboxPersist file.raw = .ok controller.config.sandboxPersist ∧
      controller.config.mode = file.mode := by
  simp only [buildControllerImport, bind_eq_ok] at h
  obtain ⟨persist, hp, h⟩ := h
  obtain rfl := Except.ok.inj h
  exact ⟨hp, rfl⟩

/-- A configuration and the parts it was put together from. -/
structure BuiltFrom (env : NodeEnv Cls Inst) (file : TinoStrategyFile) (cfg : NodeConfig Inst) :
    Prop where
  busAndController : buildTradingNodeConfig env.bus file = .ok cfg.toTradingNodeConfig
  mode : cfg.controller.config.mode = file.mode
  persist : sandboxPersist file.raw = .ok cfg.controller.config.sandboxPersist
  fuel : sandboxFillFuelOn file.mode file.raw = .ok cfg.messageBus.typesFilter.isSome
  recovery : recoveryEnabled file cfg.controller.config.sandboxPersist = .ok cfg.loadState
  saveState : cfg.saveState = cfg.loadState
  cache : buildCacheConfig env.bus file.raw file.mode cfg.controller.config.sandboxPersist =
    .ok cfg.cache
  execEngine : buildExecEngineConfig file.raw file.mode = .ok cfg.execEngine
  actors : buildActorImports file = .ok cfg.actors
  dataClients : buildDataClients env.library env.environ file = .ok cfg.dataClients
  execClients : buildExecClients env.library env.environ env.accepts file = .ok cfg.execClients

theorem builtFrom_of_ok (h : buildNodeConfig env file = .ok cfg) : BuiltFrom env file cfg := by
  simp only [buildNodeConfig, bind_eq_ok, mapError_eq_ok] at h
  obtain ⟨streams, hstreams, persist, hpersist, recovery, hrecovery, traderId, -, filter, hfilter,
    bus, hbus, cache, hcache, logging, -, exec, hexec, actors, hactors, controller, hcontroller,
    strategies, -, data, hdata, clients, hclients, h⟩ := h
  obtain rfl := Except.ok.inj h
  obtain ⟨hp, hm⟩ := buildControllerImport_ok hcontroller
  obtain rfl := Except.ok.inj (hpersist.symm.trans hp)
  refine ⟨?_, hm, hp, ?_, hrecovery, rfl, hcache, hexec, hactors, hdata, hclients⟩
  · simp only [buildTradingNodeConfig, bind_eq_ok, mapError_eq_ok]
    exact ⟨streams, hstreams, filter, hfilter, bus, hbus, controller, hcontroller, rfl⟩
  · rw [buildMessageBusConfig_typesFilter hbus]
    exact hfilter

/-! ### What belongs together -/

/-- Neither `[cache] flush_on_start` nor `[recovery] enabled` is set. -/
def NoOverride (raw : Value) : Prop :=
  (raw.get "cache").lookup? "flush_on_start" = none ∧
    ∀ sec, tomlSection "recovery" raw = .ok sec → sec.lookup? "enabled" = none

structure Coherent (file : TinoStrategyFile) (cfg : NodeConfig Inst) : Prop where
  /-- What is saved is what is loaded. -/
  state : cfg.saveState = cfg.loadState
  /-- A cache is wiped at the start exactly when no state is loaded into the node. -/
  wiped : NoOverride file.raw → ∀ cache, cfg.cache = some cache →
    ∃ flush, cache.flushOnStart = .bool flush ∧ cfg.loadState = .bool (!flush)
  /-- The balances a bridge replays are still in the cache. -/
  replayed : NoOverride file.raw → cfg.controller.config.mode = "sandbox" →
    cfg.controller.config.sandboxPersist = true →
    cfg.loadState = .bool true ∧ ∀ cache, cfg.cache = some cache → cache.flushOnStart = .bool false
  /-- Nothing is reconciled with the simulation, at the start or later. -/
  reconciled : cfg.execEngine.reconciliation = decide (file.mode ≠ "sandbox") ∧
    (file.mode = "sandbox" → cfg.execEngine.openCheckIntervalSecs = .none ∧
      cfg.execEngine.positionCheckIntervalSecs = .none)
  /-- The feeder runs exactly where its deltas are kept off Redis, in a sandbox. -/
  fed : ∃ own, fileActors file = .ok own ∧
    cfg.actors = own ++ (if cfg.messageBus.typesFilter.isSome then [feederImport] else []) ∧
    (cfg.messageBus.typesFilter.isSome = true → file.mode = "sandbox")

theorem buildActorImports_ok {fuel : Bool} {actors : List ImportableActorConfig}
    (hfuel : sandboxFillFuelOn file.mode file.raw = .ok fuel)
    (h : buildActorImports file = .ok actors) :
    ∃ own, fileActors file = .ok own ∧ actors = own ++ (if fuel then [feederImport] else []) := by
  simp only [buildActorImports, bind_eq_ok, hfuel, Except.ok.injEq, exists_eq_left'] at h
  obtain ⟨own, hown, h⟩ := h
  refine ⟨own, hown, ?_⟩
  split_ifs at h ⊢
  · exact (Except.ok.inj h).symm
  · obtain ⟨persist, -, h⟩ := bind_eq_ok.1 h
    rw [List.append_nil]
    exact (Except.ok.inj h).symm
  · rw [List.append_nil]
    exact (Except.ok.inj h).symm

theorem loadState_of_noOverride (hb : BuiltFrom env file cfg) (hno : NoOverride file.raw) :
    cfg.loadState =
      .bool (decide (file.mode ≠ "sandbox") || cfg.controller.config.sandboxPersist) := by
  obtain ⟨sec, hsec, h⟩ := map_eq_ok.1 hb.recovery
  rw [← h, Value.getOr, hno.2 sec hsec, Option.getD_none]

theorem flushOnStart_of_noOverride (hb : BuiltFrom env file cfg) (hno : NoOverride file.raw)
    {cache : CacheConfig} (hc : cfg.cache = some cache) :
    cache.flushOnStart =
      .bool (decide (file.mode = "sandbox") && !cfg.controller.config.sandboxPersist) := by
  have h := hb.cache
  simp only [buildCacheConfig, bind_eq_ok, mapError_eq_ok] at h
  obtain ⟨sec, hsec, h⟩ := h
  cases sec with
  | none =>
    rw [hc] at h
    cases h
  | some sec =>
    have hget : sec = file.raw.get "cache" := by
      unfold cacheSection at hsec
      dsimp only at hsec
      split_ifs at hsec
      · cases hsec
      · exact (Option.some.inj (Except.ok.inj hsec)).symm
    obtain ⟨db, -, h⟩ := bind_eq_ok.1 h
    obtain rfl := Option.some.inj ((Except.ok.inj h).trans hc)
    subst hget
    simp only [Value.getOr, hno.1, Option.getD_none]

/-- However a file is written: a configuration that is built from it hangs together. -/
theorem built_coherent (h : buildNodeConfig env file = .ok cfg) : Coherent file cfg := by
  have hb := builtFrom_of_ok h
  refine ⟨hb.saveState, fun hno cache hc => ?_, fun hno hm hp => ⟨?_, fun cache hc => ?_⟩, ?_, ?_⟩
  · refine ⟨_, flushOnStart_of_noOverride hb hno hc, ?_⟩
    rw [loadState_of_noOverride hb hno]
    simp [Bool.not_and]
  · rw [loadState_of_noOverride hb hno, hp, Bool.or_true]
  · rw [flushOnStart_of_noOverride hb hno hc, hp, Bool.not_true, Bool.and_false]
  · obtain ⟨sec, -, hexec⟩ := map_eq_ok.1 hb.execEngine
    rw [← hexec]
    refine ⟨by simp, fun hm => ?_⟩
    simp [hm]
  · obtain ⟨own, hown, hactors⟩ := buildActorImports_ok hb.fuel hb.actors
    refine ⟨own, hown, hactors, fun hfilter => ?_⟩
    have hfuel := hb.fuel
    rw [hfilter] at hfuel
    unfold sandboxFillFuelOn at hfuel
    split_ifs at hfuel with hm
    · exact hm
    · cases Except.ok.inj hfuel

def plainLibrary : NtLibrary String String where
  load mod cls := .ok (mod ++ ":" ++ cls)
  isProviderConfig _ := .ok true
  isDataFactory _ := .ok true
  isExecFactory _ := .ok true
  instrumentId
    | .str s => .ok s
    | _ => .error "no identifier"
  construct cls _ _ := .ok cls
  convert _ cls := .ok cls
  replaceProvider client provider := .ok (client ++ "(" ++ provider ++ ")")

def plainNode : NodeEnv String String where
  bus := localRedis
  environ _ := none
  library := plainLibrary
  accepts _ := .ok ()
  traderId
    | .str s => .ok s
    | _ => .error "no identifier"

def venueFile (mode : String) (execPath : String) (persist : Bool) : TinoStrategyFile where
  raw := .dict [
    (.str "strategy", .dict [(.str "id", .str "foo"), (.str "class", .str "foo:Foo")]),
    (.str "cache", .dict [(.str "encoding", .str "msgpack")]),
    (.str "sandbox", .dict [(.str "persist", .bool persist)]),
    (.str "data_clients", .dict [(.str "BINANCE", .dict [(.str "path", .str "b:Data"),
      (.str "config", .dict [(.str "instrument_provider", .dict [(.str "path", .str "b:Ids")])])])]),
    (.str "exec_clients", .dict [(.str "BINANCE", .dict [(.str "path", .str execPath)])]),
    (.str "factories", .dict [(.str "data", .dict [(.str "BINANCE", .str "b:DataFactory")]),
      (.str "exec", .dict [(.str "BINANCE", .str "b:ExecFactory")])])]
  path := "tinohelm.toml"
  strategyId := "foo"
  traderId := .str "TINO-001"
  mode := mode
  commandTopic := "commands.tinohelm.foo"

theorem built_coherent_venueFile : ∃ cfg,
    buildNodeConfig plainNode (venueFile "sandbox" "b:Exec" true) = .ok cfg ∧
      Coherent (venueFile "sandbox" "b:Exec" true) cfg :=
  ⟨_, rfl, @built_coherent _ _ plainNode _ _ rfl⟩

/-! ### The simulated venue -/

def ClientConfig.provider? : ClientConfig Inst → Option Inst
  | .instance _ provider _ => some provider
  | .passthrough _ => none

/-- The provider that a venue's data client was given an instance of. -/
def dataProvider (clients : List (Value × ClientConfig Inst)) (venue : Value) : Option Inst :=
  ((clients.find? fun c => c.1.eq venue).map Prod.snd).bind ClientConfig.provider?

theorem find?_forall₂ {α β κ : Type} {R : α → β → Prop} {l : List (κ × α)} {l' : List (κ × β)}
    (h : List.Forall₂ (fun a b => a.1 = b.1 ∧ R a.2 b.2) l l') (p : κ → Bool) :
    Option.Rel R ((l.find? fun a => p a.1).map Prod.snd)
      ((l'.find? fun b => p b.1).map Prod.snd) := by
  induction h with
  | nil => exact Option.Rel.none
  | cons hab _ ih =>
    rw [List.find?_cons, List.find?_cons, hab.1]
    split
    · exact Option.Rel.some hab.2
    · exact ih

/-- A payload that is no table names no provider. -/
theorem providerSection_of_not_isDict {environ : String → Option String} {v : Value}
    (h : v.isDict = false) : providerSection (resolveEnvRefs environ v) = none := by
  cases v with
  | dict kvs => cases h
  | str s =>
    unfold resolveEnvRefs
    split <;> rfl
  | _ => rfl

theorem upgradeClientConfig_provider {nt : NtLibrary Cls Inst} {v : Value}
    {client : ClientConfig Inst} (h : upgradeClientConfig nt v = .ok client) :
    (providerSection v = none ∧ client.provider? = none) ∨
      ∃ sec provider, providerSection v = some sec ∧ buildInstrumentProvider nt sec = .ok provider ∧
        client.provider? = some provider := by
  unfold upgradeClientConfig at h
  cases hsec : providerSection v with
  | none =>
    rw [hsec] at h
    obtain rfl := Except.ok.inj h
    exact Or.inl ⟨rfl, rfl⟩
  | some sec =>
    simp only [hsec, bind_eq_ok, mapError_eq_ok] at h
    obtain ⟨path, -, cls, -, base, -, provider, hprovider, inst, -, h⟩ := h
    obtain rfl := Except.ok.inj h
    exact Or.inr ⟨sec, provider, rfl, hprovider, rfl⟩

/-- What `_data_client_provider` finds for a venue is what the data client was built with. -/
theorem dataClientProvider_agrees {nt : NtLibrary Cls Inst} {environ : String → Option String}
    {clients : List (Value × ClientConfig Inst)} {venue : Value} {p : Option Inst}
    (hc : buildDataClients nt environ file = .ok clients)
    (hp : dataClientProvider nt environ file venue = .ok p) : p = dataProvider clients venue := by
  simp only [buildDataClients, dataClientProvider, bind_eq_ok] at hc hp
  obtain ⟨members, hm, hc⟩ := hc
  obtain ⟨members', hm', hp⟩ := hp
  obtain rfl := Except.ok.inj (hm.symm.trans hm')
  have hall : List.Forall₂ (fun m c => m.1 = c.1 ∧
      upgradeClientConfig nt (resolveEnvRefs environ m.2) = .ok c.2) members clients := by
    refine (mapM_eq_ok_iff.1 hc).imp fun m c hmc => ?_
    obtain ⟨cfg, hcfg, he⟩ := bind_eq_ok.1 hmc
    obtain rfl := Except.ok.inj he
    exact ⟨rfl, hcfg⟩
  have hrel := find?_forall₂ (R := fun payload client =>
    upgradeClientConfig nt (resolveEnvRefs environ payload) = .ok client) hall
    fun k : Value => k.eq venue
  unfold dataProvider
  generalize (clients.find? fun c => c.1.eq venue).map Prod.snd = found at hrel
  generalize (members.find? fun m => m.1.eq venue).map Prod.snd = payload at hrel hp
  cases hrel with
  | none => exact (Except.ok.inj hp).symm
  | @some payload client hup =>
    rw [Option.bind_some]
    obtain ⟨hnone, hclient⟩ | ⟨sec, provider, hsec, hbuild, hclient⟩ :=
      upgradeClientConfig_provider hup
    · rw [hclient]
      cases payload with
      | dict kvs =>
        simp only [hnone] at hp
        exact (Except.ok.inj hp).symm
      | _ => exact (Except.ok.inj hp).symm
    · rw [hclient]
      cases payload with
      | dict kvs =>
        simp only [hsec, map_eq_ok, hbuild, Except.ok.injEq, exists_eq_left'] at hp
        exact hp.symm
      | _ =>
        rw [providerSection_of_not_isDict rfl] at hsec
        cases hsec

/-- The execution factories of a sandbox are NT's simulated ones. -/
theorem registerFactories_sandbox {nt : NtLibrary Cls Inst} {regs : List (Registration Cls)}
    (hmode : file.mode = "sandbox") (h : registerFactories nt file = .ok regs) :
    ∀ r ∈ regs, (∃ venue cls, r = .data venue cls) ∨ ∃ venue, r = .sandboxExec venue := by
  simp only [registerFactories, bind_eq_ok, mapError_eq_ok, hmode] at h
  obtain ⟨factories, -, dataFactories, -, execFactories, -, data, hdata, exec, hexec, h⟩ := h
  obtain rfl := Except.ok.inj h
  intro r hr
  rcases List.mem_append.1 hr with hr | hr
  · obtain ⟨m, -, hm⟩ := exists_of_mem_mapM hdata hr
    simp only [dataRegistration, bind_eq_ok] at hm
    obtain ⟨cls, -, ok, -, hm⟩ := hm
    split_ifs at hm
    exact Or.inl ⟨m.1, cls, (Except.ok.inj hm).symm⟩
  · obtain ⟨m, -, hm⟩ := exists_of_mem_mapM hexec hr
    exact Or.inr ⟨m.1, (Except.ok.inj hm).symm⟩

/-- Nothing but simulated clients trades in a sandbox: one for each venue of
`[exec_clients]`, with the instrument provider of the venue's live data client, and no
factory but the simulated one. -/
theorem sandbox_only_simulates (h : buildNodeConfig env file = .ok cfg)
    (hmode : file.mode = "sandbox") :
    (∃ members, venues "exec_clients" file.raw = .ok members ∧
      List.Forall₂ (fun m c => c.1 = m.1 ∧ ∃ sim, c.2 = ExecClientConfig.sandbox sim ∧
        sim.venue = m.1 ∧ sim.instrumentProvider = dataProvider cfg.dataClients m.1)
        members cfg.execClients) ∧
      ∀ regs, registerFactories env.library file = .ok regs →
        ∀ venue cls, Registration.exec venue cls ∉ regs := by
  have hb := builtFrom_of_ok h
  have hexec := hb.execClients
  simp only [buildExecClients, bind_eq_ok, mapError_eq_ok] at hexec
  obtain ⟨members, hm, hexec⟩ := hexec
  rw [if_neg (by rw [hmode]; decide)] at hexec
  obtain ⟨sec, -, hexec⟩ := bind_eq_ok.1 hexec
  refine ⟨⟨members, hm, (mapM_eq_ok_iff.1 hexec).imp fun m c hmc => ?_⟩,
    fun regs hregs venue cls hmem => ?_⟩
  · simp only [sandboxClient, bind_eq_ok] at hmc
    obtain ⟨own, -, u, -, provider, hprovider, hmc⟩ := hmc
    obtain rfl := Except.ok.inj hmc
    exact ⟨rfl, _, rfl, rfl, dataClientProvider_agrees hb.dataClients hprovider⟩
  · obtain ⟨venue', cls', he⟩ | ⟨venue', he⟩ := registerFactories_sandbox hmode hregs _ hmem
    · cases he
    · cases he

theorem sandbox_only_simulates_venueFile : ∃ cfg,
    buildNodeConfig plainNode (venueFile "sandbox" "b:Exec" false) = .ok cfg ∧
      (∃ members, venues "exec_clients" (venueFile "sandbox" "b:Exec" false).raw = .ok members ∧
        List.Forall₂ (fun m c => c.1 = m.1 ∧ ∃ sim, c.2 = ExecClientConfig.sandbox sim ∧
          sim.venue = m.1 ∧ sim.instrumentProvider = dataProvider cfg.dataClients m.1)
          members cfg.execClients) ∧
      ∃ regs, registerFactories plainLibrary (venueFile "sandbox" "b:Exec" false) = .ok regs ∧
        regs ≠ [] ∧ ∀ venue cls, Registration.exec venue cls ∉ regs := by
  have h := @sandbox_only_simulates _ _ plainNode (venueFile "sandbox" "b:Exec" false) _ rfl rfl
  exact ⟨_, rfl, h.1, _, rfl, List.cons_ne_nil _ _, h.2 _ rfl⟩

/-! ### What a mode does not read -/

/-- Two files that agree on every section but these. -/
def AgreeBut (names : List String) (raw raw' : Value) : Prop :=
  ∀ name, name ∉ names → raw'.lookup? name = raw.lookup? name

namespace AgreeBut

variable {names : List String} {raw raw' : Value}

theorem get (h : AgreeBut names raw raw') {name : String} (hn : name ∉ names) :
    raw'.get name = raw.get name := by
  rw [Value.get, h name hn, Value.get]

theorem tomlSection (h : AgreeBut names raw raw') {name : String} (hn : name ∉ names) :
    TinoHelm.tomlSection name raw' = TinoHelm.tomlSection name raw := by
  rw [TinoHelm.tomlSection, h name hn, TinoHelm.tomlSection]

theorem messageBusSection (h : AgreeBut names raw raw') (hn : "message_bus" ∉ names) :
    TinoHelm.messageBusSection raw' = TinoHelm.messageBusSection raw := by
  rw [TinoHelm.messageBusSection, h _ hn, TinoHelm.messageBusSection]

theorem sandboxSection (h : AgreeBut names raw raw') (hn : "sandbox" ∉ names) :
    TinoHelm.sandboxSection raw' = TinoHelm.sandboxSection raw := by
  rw [TinoHelm.sandboxSection, h _ hn, TinoHelm.sandboxSection]

theorem strategySection (h : AgreeBut names raw raw') (hn : "strategy" ∉ names) :
    TinoHelm.strategySection raw' = TinoHelm.strategySection raw := by
  rw [TinoHelm.strategySection, h _ hn, TinoHelm.strategySection]

theorem cacheSection (h : AgreeBut names raw raw') (hn : "cache" ∉ names) :
    TinoHelm.cacheSection raw' = TinoHelm.cacheSection raw := by
  rw [TinoHelm.cacheSection, h.get hn, TinoHelm.cacheSection]

theorem venues (h : AgreeBut names raw raw') {name : String} (hn : name ∉ names) :
    TinoHelm.venues name raw' = TinoHelm.venues name raw := by
  rw [TinoHelm.venues, h.tomlSection hn, TinoHelm.venues]

theorem userStreams (h : AgreeBut names raw raw') (hn : "message_bus" ∉ names) :
    TinoHelm.userStreams raw' = TinoHelm.userStreams raw := by
  rw [TinoHelm.userStreams, h.messageBusSection hn, TinoHelm.userStreams]

theorem buildMessageBusConfig (h : AgreeBut names raw raw') (hn : "message_bus" ∉ names)
    (benv : BusEnv) (streams : Option (List Value)) (filter : Bool) :
    TinoHelm.buildMessageBusConfig benv raw' streams filter =
      TinoHelm.buildMessageBusConfig benv raw streams filter := by
  simp only [TinoHelm.buildMessageBusConfig, h.messageBusSection hn]

theorem buildCacheConfig (h : AgreeBut names raw raw') (hn : "cache" ∉ names) (benv : BusEnv)
    (mode : String) (persist : Bool) :
    TinoHelm.buildCacheConfig benv raw' mode persist =
      TinoHelm.buildCacheConfig benv raw mode persist := by
  simp only [TinoHelm.buildCacheConfig, h.cacheSection hn]

theorem buildLoggingConfig (h : AgreeBut names raw raw') (hn : "logging" ∉ names)
    (level : Option String) :
    TinoHelm.buildLoggingConfig level raw' = TinoHelm.buildLoggingConfig level raw := by
  rw [TinoHelm.buildLoggingConfig, h.tomlSection hn, TinoHelm.buildLoggingConfig]

theorem buildExecEngineConfig (h : AgreeBut names raw raw') (hn : "exec" ∉ names)
    (mode : String) :
    TinoHelm.buildExecEngineConfig raw' mode = TinoHelm.buildExecEngineConfig raw mode := by
  rw [TinoHelm.buildExecEngineConfig, h.tomlSection hn, TinoHelm.buildExecEngineConfig]

end AgreeBut

def TinoStrategyFile.withRaw (file : TinoStrategyFile) (raw : Value) : TinoStrategyFile :=
  { file with raw }

section
variable (file) (raw : Value)

@[simp] theorem TinoStrategyFile.raw_withRaw : (file.withRaw raw).raw = raw := rfl
@[simp] theorem TinoStrategyFile.mode_withRaw : (file.withRaw raw).mode = file.mode := rfl
@[simp] theorem TinoStrategyFile.traderId_withRaw :
    (file.withRaw raw).traderId = file.traderId := rfl
@[simp] theorem TinoStrategyFile.strategyId_withRaw :
    (file.withRaw raw).strategyId = file.strategyId := rfl
@[simp] theorem TinoStrategyFile.commandTopic_withRaw :
    (file.withRaw raw).commandTopic = file.commandTopic := rfl
@[simp] theorem TinoStrategyFile.path_withRaw : (file.withRaw raw).path = file.path := rfl

end

theorem fileActors_congr {names : List String} {raw : Value} (h : AgreeBut names file.raw raw)
    (hr : "reporting" ∉ names) (ha : "actors" ∉ names) :
    fileActors (file.withRaw raw) = fileActors file := by
  simp only [fileActors, TinoStrategyFile.raw_withRaw, TinoStrategyFile.strategyId_withRaw,
    h.tomlSection hr, h _ ha]

theorem buildStrategyImports_congr {names : List String} {raw : Value}
    (h : AgreeBut names file.raw raw) (hs : "strategy" ∉ names) :
    buildStrategyImports (file.withRaw raw) = buildStrategyImports file := by
  simp only [buildStrategyImports, TinoStrategyFile.raw_withRaw, TinoStrategyFile.strategyId_withRaw,
    TinoStrategyFile.path_withRaw, h.strategySection hs]

theorem recoveryEnabled_congr {names : List String} {raw : Value} (h : AgreeBut names file.raw raw)
    (hn : "recovery" ∉ names) (persist : Bool) :
    recoveryEnabled (file.withRaw raw) persist = recoveryEnabled file persist := by
  rw [recoveryEnabled, TinoStrategyFile.raw_withRaw, h.tomlSection hn]
  rfl

theorem buildDataClients_congr {nt : NtLibrary Cls Inst} {environ : String → Option String}
    {names : List String} {raw : Value} (h : AgreeBut names file.raw raw)
    (hd : "data_clients" ∉ names) :
    buildDataClients nt environ (file.withRaw raw) = buildDataClients nt environ file := by
  simp only [buildDataClients, TinoStrategyFile.raw_withRaw, h.venues hd]

theorem dataClientProvider_congr {nt : NtLibrary Cls Inst} {environ : String → Option String}
    {names : List String} {raw : Value} (h : AgreeBut names file.raw raw)
    (hd : "data_clients" ∉ names) (venue : Value) :
    dataClientProvider nt environ (file.withRaw raw) venue =
      dataClientProvider nt environ file venue := by
  simp only [dataClientProvider, TinoStrategyFile.raw_withRaw, h.venues hd]

def NodeConfig.withPersist (cfg : NodeConfig Inst) (persist : Bool) : NodeConfig Inst :=
  { cfg with
    controller := { cfg.controller with
      config := { cfg.controller.config with sandboxPersist := persist } } }

/-- A live pod is the same whatever its `[sandbox]` table says, but for a flag of the bridge
that only a sandbox reads. -/
theorem live_ignores_sandbox (hmode : file.mode = "live") {raw : Value}
    (h : AgreeBut ["sandbox"] file.raw raw) {persist persist' : Bool}
    (hp : sandboxPersist file.raw = .ok persist) (hp' : sandboxPersist raw = .ok persist') :
    buildNodeConfig env (file.withRaw raw) =
      (buildNodeConfig env file).map fun cfg => cfg.withPersist persist' := by
  have hrecovery : recoveryEnabled (file.withRaw raw) persist' = recoveryEnabled file persist := by
    rw [recoveryEnabled_congr h (by decide)]
    simp [recoveryEnabled, hmode]
  have hcache : buildCacheConfig env.bus raw file.mode persist' =
      buildCacheConfig env.bus file.raw file.mode persist := by
    rw [h.buildCacheConfig (by decide)]
    simp [buildCacheConfig, hmode]
  have hactors : buildActorImports (file.withRaw raw) = buildActorImports file := by
    have hown := fileActors_congr h (by decide) (by decide)
    simp [buildActorImports, hown, sandboxFillFuelOn, hmode]
  have hclients : buildExecClients env.library env.environ env.accepts (file.withRaw raw) =
      buildExecClients env.library env.environ env.accepts file := by
    have hvenues : venues "exec_clients" raw = venues "exec_clients" file.raw :=
      h.venues (by decide)
    simp only [buildExecClients, TinoStrategyFile.raw_withRaw, TinoStrategyFile.mode_withRaw, hvenues,
      hmode, if_true]
  have hfuel : ∀ raw, sandboxFillFuelOn file.mode raw = .ok false := fun raw => by
    rw [sandboxFillFuelOn, if_neg (by rw [hmode]; decide)]
  simp only [buildNodeConfig, map_bind_eq, buildControllerImport, TinoStrategyFile.raw_withRaw,
    TinoStrategyFile.mode_withRaw, TinoStrategyFile.strategyId_withRaw,
    TinoStrategyFile.traderId_withRaw, TinoStrategyFile.commandTopic_withRaw,
    h.userStreams (by decide), hp, hp', hfuel, h.buildMessageBusConfig (by decide),
    h.buildLoggingConfig (by decide), h.buildExecEngineConfig (by decide), hactors,
    buildDataClients_congr h (by decide), hclients, buildStrategyImports_congr h (by decide),
    Except.mapError, ok_bind, hrecovery, hcache]
  rfl

theorem agreeBut_persist :
    AgreeBut ["sandbox"] (venueFile "live" "b:Exec" false).raw (venueFile "live" "b:Exec" true).raw := by
  intro name hn
  have hne : ¬"sandbox" = name := fun he => hn (List.mem_singleton.2 he.symm)
  simp [venueFile, Value.lookup?, List.find?_cons, hne]

theorem live_ignores_sandbox_venueFile :
    buildNodeConfig plainNode (venueFile "live" "b:Exec" true) =
      (buildNodeConfig plainNode (venueFile "live" "b:Exec" false)).map fun cfg =>
        cfg.withPersist true :=
  @live_ignores_sandbox _ _ plainNode (venueFile "live" "b:Exec" false) rfl _ agreeBut_persist
    false true rfl rfl

/-- A sandbox reads the venues of `[exec_clients]` and their starting balances, and nothing
else of it: no class path, no credential. -/
theorem sandbox_ignores_payloads (hmode : file.mode = "sandbox") {raw : Value}
    (h : AgreeBut ["exec_clients", "factories"] file.raw raw)
    {members members' : List (Value × Value)} (hm : venues "exec_clients" file.raw = .ok members)
    (hm' : venues "exec_clients" raw = .ok members')
    (hsame : List.Forall₂ (fun m m' => m'.1 = m.1 ∧ ∀ default,
      payloadGetOr m'.2 "starting_balances" default =
        payloadGetOr m.2 "starting_balances" default) members members') :
    buildNodeConfig env (file.withRaw raw) = buildNodeConfig env file := by
  have hsandbox : sandboxSection raw = sandboxSection file.raw := h.sandboxSection (by decide)
  have hpersist : sandboxPersist raw = sandboxPersist file.raw := by
    rw [sandboxPersist, hsandbox, sandboxPersist]
  have hfuel : sandboxFillFuelOn file.mode raw = sandboxFillFuelOn file.mode file.raw := by
    rw [sandboxFillFuelOn, hsandbox, sandboxFillFuelOn]
  have hactors : buildActorImports (file.withRaw raw) = buildActorImports file := by
    simp only [buildActorImports, fileActors_congr h (by decide) (by decide),
      TinoStrategyFile.raw_withRaw, TinoStrategyFile.mode_withRaw, hfuel, hpersist]
  have hclients : buildExecClients env.library env.environ env.accepts (file.withRaw raw) =
      buildExecClients env.library env.environ env.accepts file := by
    have hlive : file.mode ≠ "live" := by rw [hmode]; decide
    simp only [buildExecClients, TinoStrategyFile.raw_withRaw, TinoStrategyFile.mode_withRaw, hm,
      hm', hsandbox, if_neg hlive, Except.mapError, ok_bind]
    cases sandboxSection file.raw with
    | error e => rfl
    | ok sec =>
      refine (mapM_congr_forall₂ (hsame.imp fun m m' hmm => ?_)).symm
      simp only [sandboxClient, hmm.1, hmm.2, dataClientProvider_congr h (by decide)]
  simp only [buildNodeConfig, buildControllerImport, TinoStrategyFile.raw_withRaw,
    TinoStrategyFile.mode_withRaw, TinoStrategyFile.strategyId_withRaw,
    TinoStrategyFile.traderId_withRaw, TinoStrategyFile.commandTopic_withRaw,
    h.userStreams (by decide), hpersist, hfuel, h.buildMessageBusConfig (by decide),
    h.buildLoggingConfig (by decide), h.buildExecEngineConfig (by decide), hactors,
    buildDataClients_congr h (by decide), hclients, buildStrategyImports_congr h (by decide),
    recoveryEnabled_congr h (by decide), h.buildCacheConfig (by decide)]

theorem agreeBut_execPath : AgreeBut ["exec_clients", "factories"]
    (venueFile "sandbox" "b:Exec" false).raw (venueFile "sandbox" "nowhere" false).raw := by
  intro name hn
  have hne : ¬"exec_clients" = name := fun he => hn (he ▸ List.mem_cons_self)
  simp [venueFile, Value.lookup?, List.find?_cons, hne]

/-- A class path that cannot even be split makes no difference. -/
theorem sandbox_ignores_payloads_venueFile :
    buildNodeConfig plainNode (venueFile "sandbox" "nowhere" false) =
      buildNodeConfig plainNode (venueFile "sandbox" "b:Exec" false) :=
  @sandbox_ignores_payloads _ _ plainNode (venueFile "sandbox" "b:Exec" false) rfl _
    agreeBut_execPath _ _ rfl rfl (.cons ⟨rfl, fun _ => rfl⟩ .nil)

end TinoHelm

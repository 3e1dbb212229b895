import TinoHelm.Spec.RedisClients

/-! Where the connections of a deployment go. The message bus of a pod and the clients
beside it agree only on a `REDIS_URL` that is set and names the database 0. -/

namespace TinoHelm
open Base

/-- Every client goes where the message bus of the pod goes. -/
structure Coincide (py : RedisPy) (env : BusEnv) (bus : MessageBusConfig) : Prop where
  announce : announceClient py env = .ok bus.database.endpoint
  recovery : recoveryRedis py env = .ok bus.database.endpoint
  cli : cliClient py env = .ok bus.database.endpoint

/-- The URL of the bus: the environment's, or else the section's, or else the default. -/
theorem buildTradingNodeConfig_database {env : BusEnv} {file : TinoStrategyFile}
    {config : TradingNodeConfig} (h : buildTradingNodeConfig env file = .ok config) :
    ∃ redisUrl, databaseConfigFromUrl env.urlparse redisUrl = .ok config.messageBus.database ∧
      ∀ url, env.redisUrl = some url → url ≠ "" → redisUrl = .str url := by
  simp only [buildTradingNodeConfig, buildMessageBusConfig, bind_eq_ok] at h
  obtain ⟨streams, -, filterL2Book, -, bus, ⟨sec, -, db, hdb, hbus⟩, controller, -, h⟩ := h
  obtain rfl := Except.ok.inj h
  obtain rfl := Except.ok.inj hbus
  refine ⟨_, hdb, fun url hurl hne => ?_⟩
  rw [hurl, Option.filter_some, if_pos (by simpa using hne)]

/-- What redis-py takes from a URL beside the TLS flag is what the message bus takes. -/
structure RedisPy.AgreesOn (py : RedisPy) (url : String) (parsed : ParsedUrl) (port : Option ℕ) :
    Prop where
  scheme : SpellsScheme url
  options : ∃ options, py.options url = .ok options ∧
    py.host parsed options = (parsed.hostname.filter (· ≠ "")).getD "localhost" ∧
    py.port port options = (port.filter (· ≠ 0)).getD 6379 ∧ py.index url options = 0

/-- Of a URL the bus accepts, redis-py makes the endpoint of the bus exactly if it takes the
same from it. -/
theorem fromUrl_eq_endpoint_iff {py : RedisPy} {urlparse : Value → Except PyError ParsedUrl}
    (hpy : py.Documented urlparse) {url : String} {db : DatabaseConfig}
    (h : databaseConfigFromUrl urlparse (.str url) = .ok db) :
    ∃ parsed port, urlparse (.str url) = .ok parsed ∧ parsed.port = .ok port ∧
      (py.fromUrl url = .ok db.endpoint ↔ py.AgreesOn url parsed port) := by
  simp only [databaseConfigFromUrl, bind_eq_ok, mapError_eq_ok] at h
  obtain ⟨parsed, hparsed, h⟩ := h
  split_ifs at h with hscheme
  obtain ⟨port, hport, h⟩ := bind_eq_ok.1 h
  rw [mapError_eq_ok] at hport
  obtain rfl := Except.ok.inj h
  have hredis : parsed.scheme = "redis" ∨ parsed.scheme = "rediss" := by
    by_contra hn
    exact hscheme (not_or.1 hn)
  refine ⟨parsed, port, hparsed, hport, ?_⟩
  by_cases hspell : SpellsScheme url
  · rw [hpy.fromUrl_eq url parsed port hparsed hredis hport hspell, map_eq_ok]
    constructor
    · rintro ⟨options, hoptions, he⟩
      rw [DatabaseConfig.endpoint, Endpoint.mk.injEq] at he
      exact ⟨hspell, options, hoptions, he.1, he.2.1, he.2.2.1⟩
    · rintro ⟨-, options, hoptions, hhost, hport, hindex⟩
      refine ⟨options, hoptions, ?_⟩
      rw [hhost, hport, hindex]
      rfl
  · rw [hpy.fromUrl_scheme url parsed hparsed hredis hspell]
    exact iff_of_false (fun he => by cases he) fun hagrees => hspell hagrees.scheme

/-- For each environment and each file a pod can be assembled from, the announce client, the
snapshot client and the command line go where the message bus goes if and only if
`REDIS_URL` is set to a URL from which redis-py and `urlparse` take the same, and which does
not name another database than 0. -/
theorem endpoints_coincide_iff {py : RedisPy} {env : BusEnv} (hpy : py.Documented env.urlparse)
    {file : TinoStrategyFile} {config : TradingNodeConfig}
    (h : buildTradingNodeConfig env file = .ok config) :
    Coincide py env config.messageBus ↔
      ∃ url parsed port, env.redisUrl = some url ∧ url ≠ "" ∧
        env.urlparse (.str url) = .ok parsed ∧ parsed.port = .ok port ∧
        py.AgreesOn url parsed port := by
  obtain ⟨redisUrl, hdb, hurl⟩ := buildTradingNodeConfig_database h
  have hclient : ∀ url, env.redisUrl = some url → ∀ default,
      environClient py env default = py.fromUrl url := by
    intro url hu default
    rw [environClient, hu, Option.getD_some]
  constructor
  · intro hc
    cases hu : env.redisUrl with
    | none =>
      -- the defaults name two hosts
      have hannounce : announceClient py env = .ok ⟨"localhost", 6379, 0, false⟩ := by
        rw [announceClient, environClient, hu, Option.getD_none, hpy.fromUrl_localhost]
      have hrecovery : recoveryRedis py env = .ok ⟨"redis", 6379, 0, false⟩ := by
        rw [recoveryRedis, environClient, hu, Option.getD_none, hpy.fromUrl_redis]
      have hsame := hannounce.symm.trans (hc.announce.trans (hc.recovery.symm.trans hrecovery))
      exact absurd (Except.ok.inj hsame) (by decide)
    | some url =>
      have hannounce := hc.announce
      rw [announceClient, hclient url hu] at hannounce
      have hne : url ≠ "" := by
        rintro rfl
        rw [hpy.fromUrl_empty] at hannounce
        cases hannounce
      rw [hurl url hu hne] at hdb
      obtain ⟨parsed, port, hparsed, hport, hagrees⟩ := fromUrl_eq_endpoint_iff hpy hdb
      exact ⟨url, parsed, port, rfl, hne, hparsed, hport, hagrees.1 hannounce⟩
  · rintro ⟨url, parsed, port, hu, hne, hparsed, hport, hagrees⟩
    rw [hurl url hu hne] at hdb
    obtain ⟨parsed', port', hparsed', hport', hfrom⟩ := fromUrl_eq_endpoint_iff hpy hdb
    obtain rfl := Except.ok.inj (hparsed.symm.trans hparsed')
    obtain rfl := Except.ok.inj (hport.symm.trans hport')
    have hsame := hfrom.2 hagrees
    exact ⟨(hclient url hu _).trans hsame, (hclient url hu _).trans hsame,
      (hclient url hu _).trans hsame⟩

/-! A deployment of three URLs. -/

def threeUrls : List (String × Endpoint) :=
  [("redis://localhost:6379/0", ⟨"localhost", 6379, 0, false⟩),
    ("redis://redis:6379/0", ⟨"redis", 6379, 0, false⟩),
    ("redis://redis:6379/1", ⟨"redis", 6379, 1, false⟩)]

def threePy : RedisPy where
  fromUrl url := match threeUrls.lookup url with
    | some endpoint => .ok endpoint
    | none => .error .valueError
  options _ := .ok {}
  pathIndex url := (threeUrls.lookup url).map Endpoint.db
  unquote host := host
  queryWins := false

def threeParse : Value → Except PyError ParsedUrl
  | .str url => match threeUrls.lookup url with
    | some endpoint => .ok ⟨"redis", some endpoint.host, .ok (some endpoint.port), none, none⟩
    | none => .ok ⟨"", none, .ok none, none, none⟩
  | _ => .error .typeError

theorem threePy_documented : threePy.Documented threeParse where
  fromUrl_eq url parsed port hparse hscheme hport _ := by
    simp only [threeParse] at hparse
    cases he : threeUrls.lookup url with
    | none =>
      rw [he] at hparse
      obtain rfl := Except.ok.inj hparse
      rcases hscheme with hs | hs <;> exact absurd hs (by decide)
    | some endpoint =>
      rw [he] at hparse
      obtain rfl := Except.ok.inj hparse
      obtain rfl := Except.ok.inj hport
      obtain ⟨before, behind, hlist, -⟩ := List.lookup_eq_some_iff.1 he
      have hall : ∀ e ∈ threeUrls, threePy.fromUrl e.1 = .ok ⟨
          threePy.host ⟨"redis", some e.2.host, .ok (some e.2.port), none, none⟩ {},
          threePy.port (some e.2.port) {}, threePy.index e.1 {}, decide ("redis" = "rediss")⟩ := by
        decide
      exact hall (url, endpoint) (by simp [hlist])
  fromUrl_scheme url parsed hparse hscheme hspell := by
    simp only [threeParse] at hparse
    cases he : threeUrls.lookup url with
    | none =>
      rw [he] at hparse
      obtain rfl := Except.ok.inj hparse
      rcases hscheme with hs | hs <;> exact absurd hs (by decide)
    | some endpoint =>
      obtain ⟨before, behind, hlist, -⟩ := List.lookup_eq_some_iff.1 he
      have hall : ∀ e ∈ threeUrls, startsWith e.1 "redis://" = true := by decide
      exact absurd (Or.inl (hall (url, endpoint) (by simp [hlist]))) hspell
  fromUrl_localhost := rfl
  fromUrl_redis := rfl
  fromUrl_empty := rfl

/-- `REDIS_URL` is set to the second URL, as the compose file does. -/
def composeEnv : BusEnv := ⟨some "redis://redis:6379/0", threeParse⟩

def indexEnv : BusEnv := ⟨some "redis://redis:6379/1", threeParse⟩

def podFile : TinoStrategyFile :=
  ⟨.dict [], "strategies/h/tinohelm.toml", "h", .str "TINO-001", "live", "commands.tinohelm.h"⟩

theorem endpoints_coincide_iff_compose :
    ∃ config, buildTradingNodeConfig composeEnv podFile = .ok config ∧
      (Coincide threePy composeEnv config.messageBus ↔
        ∃ url parsed port, composeEnv.redisUrl = some url ∧ url ≠ "" ∧
          composeEnv.urlparse (.str url) = .ok parsed ∧ parsed.port = .ok port ∧
          threePy.AgreesOn url parsed port) := by
  have hbuild : buildTradingNodeConfig composeEnv podFile = .ok _ := rfl
  exact ⟨_, hbuild, endpoints_coincide_iff threePy_documented hbuild⟩

/-- The index of the URL is lost on the bus. -/
theorem bus_forgets_index :
    ∃ config, buildTradingNodeConfig indexEnv podFile = .ok config ∧
      config.messageBus.database.endpoint = ⟨"redis", 6379, 0, false⟩ ∧
      announceClient threePy indexEnv = .ok ⟨"redis", 6379, 1, false⟩ ∧
      ¬ Coincide threePy indexEnv config.messageBus := by
  refine ⟨_, rfl, rfl, rfl, fun h => ?_⟩
  have hannounce := h.announce
  revert hannounce
  decide

end TinoHelm

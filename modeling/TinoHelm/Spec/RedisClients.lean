import TinoHelm.Spec.Bridge

/-! The clients that TinoHelm opens on Redis beside NT's: the announcing one of
`strategy_runner.py`, that of `bridge_actor.py` for the balance snapshots, and the command
line's. Each resolves `REDIS_URL` for itself. -/

namespace TinoHelm
open Base

structure Endpoint where
  host : String
  port : ℕ
  db : ℤ
  tls : Bool
deriving DecidableEq

/-- NT's configuration has no database index, which means index 0. -/
def DatabaseConfig.endpoint (d : DatabaseConfig) : Endpoint := ⟨d.host, d.port, 0, d.ssl⟩

/-- The query arguments of a URL that say where to connect to. -/
structure UrlOptions where
  host : Option String := none
  port : Option ℕ := none
  db : Option ℤ := none

/-- redis-py. `options` fails on a query argument that cannot be read, `pathIndex` is the
number that the path of a URL is, if it is one. Whether the query or the URL itself has the
last word where both name a host or a port is left open. -/
structure RedisPy where
  fromUrl : String → Except PyError Endpoint
  options : String → Except PyError UrlOptions
  pathIndex : String → Option ℤ
  unquote : String → String
  queryWins : Bool

namespace RedisPy

variable (py : RedisPy)

def prefer {α : Type} (query own : Option α) : Option α :=
  if py.queryWins then query.or own else own.or query

def host (parsed : ParsedUrl) (options : UrlOptions) : String :=
  (py.prefer options.host ((parsed.hostname.filter (· ≠ "")).map py.unquote)).getD "localhost"

def port (parsedPort : Option ℕ) (options : UrlOptions) : ℕ :=
  (py.prefer options.port (parsedPort.filter (· ≠ 0))).getD 6379

def index (url : String) (options : UrlOptions) : ℤ :=
  (options.db.or (py.pathIndex url)).getD 0

end RedisPy

/-- The beginnings that `Redis.from_url` looks for. -/
def SpellsScheme (url : String) : Prop :=
  startsWith url "redis://" = true ∨ startsWith url "rediss://" = true

/-- What redis-py documents of it. -/
structure RedisPy.Documented (py : RedisPy) (urlparse : Value → Except PyError ParsedUrl) :
    Prop where
  fromUrl_eq : ∀ url parsed port, urlparse (.str url) = .ok parsed →
    (parsed.scheme = "redis" ∨ parsed.scheme = "rediss") → parsed.port = .ok port →
    SpellsScheme url →
    py.fromUrl url = (py.options url).map fun options =>
      ⟨py.host parsed options, py.port port options, py.index url options,
        parsed.scheme = "rediss"⟩
  /-- `urlparse` takes a scheme in any case and without the slashes, redis-py does not. -/
  fromUrl_scheme : ∀ url parsed, urlparse (.str url) = .ok parsed →
    (parsed.scheme = "redis" ∨ parsed.scheme = "rediss") → ¬SpellsScheme url →
    py.fromUrl url = .error .valueError
  fromUrl_localhost : py.fromUrl "redis://localhost:6379/0" = .ok ⟨"localhost", 6379, 0, false⟩
  fromUrl_redis : py.fromUrl "redis://redis:6379/0" = .ok ⟨"redis", 6379, 0, false⟩
  fromUrl_empty : py.fromUrl "" = .error .valueError

variable (py : RedisPy) (env : BusEnv)

/-- `redis.Redis.from_url(os.environ.get("REDIS_URL", default))` -/
def environClient (default : String) : Except PyError Endpoint :=
  py.fromUrl (env.redisUrl.getD default)

/-- The client `main` of `strategy_runner.py` gives `publish_announce`. -/
def announceClient : Except PyError Endpoint := environClient py env "redis://localhost:6379/0"

/-- `BridgeActor._recovery_redis` -/
def recoveryRedis : Except PyError Endpoint := environClient py env "redis://redis:6379/0"

/-- `_client` of `cli.py` -/
def cliClient : Except PyError Endpoint := environClient py env "redis://localhost:6379/0"

end TinoHelm

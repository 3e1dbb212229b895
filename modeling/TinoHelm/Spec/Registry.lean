import TinoHelm.Base.Log
import TinoHelm.Base.Text
import TinoHelm.Base.Value
import TinoHelm.Base.Writes

/-! The strategy registry of `notifier/runner.py`: the announce readers that fill
it, the fallback scan, handle resolution, and the routing and authorisation
decisions taken from it. -/

namespace TinoHelm
open Base

/-- strategy id ↦ announced mode -/
abbrev Registry := Dict String String

/-- A Redis stream id `ms-seq`; `⊥` is `0-0`, which Redis also reads from `0`. -/
abbrev StreamId := ℕ ×ₗ ℕ

abbrev Fields := List (String × ByteArray)

structure Announce where
  strategyId : String
  mode : String
  ntVersion : String
  protoVersion : String
deriving DecidableEq, Repr

/-- A field that defaults to `b""`. -/
def decodeOr (fields : Fields) (name : String) : Except PyError String :=
  match fields.lookup name with
  | none => .ok ""
  | some b => decodeUtf8 b

/-- One entry as `read_new_announces` reads it: `none` for an incomplete one. -/
def readAnnounce (fields : Fields) : Except PyError (Option Announce) :=
  match fields.lookup "strategy_id", fields.lookup "mode" with
  | some sid, some mode => do
    let ntV := decodeOr fields "nt_version"
    let protoV := decodeOr fields "tino_protocol_version"
    .ok (some ⟨← decodeUtf8 sid, ← decodeUtf8 mode, ← ntV, ← protoV⟩)
  | _, _ => .ok none

/-- `read_new_announces` on the entries `XREAD` answered: the complete announces
and the new cursor. -/
def readNewAnnounces (cursor : StreamId) (response : List (StreamId × Fields)) :
    Except PyError (List Announce × StreamId) :=
  response.foldlM
    (fun (acc : List Announce × StreamId) e => do
      let a ← readAnnounce e.2
      .ok (acc.1 ++ a.toList, e.1))
    ([], cursor)

/-- The loop of `_autodiscover_loop` over the new entries. -/
def applyAnnounces (registry : Registry) (entries : List Announce) : Registry :=
  entries.foldl (fun reg a => reg.set a.strategyId a.mode) registry

/-- `load_announce_history` on the whole stream: the registry and the last id. -/
def loadAnnounceHistory (entries : List (StreamId × Fields)) :
    Except PyError (Registry × StreamId) :=
  entries.foldlM
    (fun (acc : Registry × StreamId) e =>
      match e.2.lookup "strategy_id", e.2.lookup "mode" with
      | some sid, some mode => do .ok (acc.1.set (← decodeUtf8 sid) (← decodeUtf8 mode), e.1)
      | _, _ => .ok (acc.1, e.1))
    (.empty, ⊥)

def controlStreamKey (strategyId : String) : String := "tinohelm:control:" ++ strategyId

/-- `apply_fallback_scan` on the keys that match `tinohelm:control:*`. -/
def applyFallbackScan (keys : List String) (registry : Registry) : Registry :=
  keys.foldl (fun reg key => reg.setdefault (lastSegment ':' key) "sandbox") registry

/-- Map an event's `strategy_id` back to a key of the registry: itself, else the
longest key it ends with behind a `-`, else unchanged. -/
def resolveHandle (strategyId : String) (registry : Registry) : String :=
  if strategyId ∈ registry.keys then strategyId
  else
    (registry.keys.foldl
      (fun (best : Option String) key =>
        if endsWith strategyId ("-" ++ key) && best.all (fun b => b.length < key.length) then
          some key
        else best)
      none).getD strategyId

structure Channels where
  sandbox : ℤ
  live : ℤ
  logging : ℤ
deriving DecidableEq, Repr

def routeChannel (strategyId : String) (registry : Registry) (ch : Channels) : ℤ :=
  if strategyId = "" then ch.logging
  else if registry.get? (resolveHandle strategyId registry) = some "live" then ch.live
  else ch.sandbox

def strategiesForChannel (channelMode : String) (registry : Registry) : List String :=
  if channelMode = "live" then (registry.entries.filter fun e => e.2 = "live").map Prod.fst
  else if channelMode = "sandbox" then
    (registry.entries.filter fun e => e.2 = "sandbox").map Prod.fst
  else registry.keys

inductive ChannelMismatch where
  | readOnly (strategyId : String)
  | wrongChannel (strategyId effective channelMode : String)
deriving DecidableEq, Repr

def ChannelMismatch.message : ChannelMismatch → String
  | readOnly sid =>
    "the logging channel is read-only; send commands from the sandbox or live channel " ++
      "(command for " ++ sid ++ " was sent from logging)"
  | wrongChannel sid effective mode =>
    sid ++ " is " ++ effective ++ "; switch to the " ++ effective ++ " channel " ++
      "(command was sent from " ++ mode ++ ")"

/-- Reject slash commands that cross the sandbox/live boundary. -/
def validateCommandChannel (strategyId channelMode : String) (registry : Registry) :
    Except ChannelMismatch Unit :=
  if channelMode = "logging" then .error (.readOnly strategyId)
  else
    let effective := if (registry.get? strategyId).getD "sandbox" = "live" then "live" else "sandbox"
    if effective ≠ channelMode then .error (.wrongChannel strategyId effective channelMode)
    else .ok ()

/-- The mode in the newest announce of an id, the latest announce last. -/
def newestMode (announces : List Announce) (strategyId : String) : Option String :=
  ((announces.filter fun a => a.strategyId = strategyId).getLast?).map Announce.mode

/-! Announces assign and scans fill, so the registry is a map with two kinds of writers. -/

def putAnnounce (a : Announce) : Write String String := .put a.strategyId a.mode

def fillSandbox (strategyId : String) : Write String String := .fill strategyId "sandbox"

theorem applyAnnounces_eq_writeAll (registry : Registry) (entries : List Announce) :
    applyAnnounces registry entries = writeAll registry (entries.map putAnnounce) := by
  rw [writeAll, List.foldl_map]
  rfl

theorem applyFallbackScan_eq_writeAll (keys : List String) (registry : Registry) :
    applyFallbackScan keys registry =
      writeAll registry (keys.map fun key => fillSandbox (lastSegment ':' key)) := by
  rw [writeAll, List.foldl_map]
  rfl

theorem newestMode_append (as bs : List Announce) (sid : String) :
    newestMode (as ++ bs) sid = (newestMode bs sid).or (newestMode as sid) := by
  simp only [newestMode, List.filter_append, List.getLast?_append]
  cases (bs.filter fun a => a.strategyId = sid).getLast? <;> simp

theorem lastPut_putAnnounce (entries : List Announce) (sid : String) :
    lastPut sid (entries.map putAnnounce) = newestMode entries sid := by
  induction entries with
  | nil => rfl
  | cons a entries ih =>
    rw [List.map_cons, putAnnounce, lastPut, ih, ← List.singleton_append, newestMode_append]
    congr 1
    by_cases h : a.strategyId = sid <;> simp [newestMode, h]

theorem firstFill_putAnnounce (entries : List Announce) (sid : String) :
    firstFill sid (entries.map putAnnounce) = none := by
  induction entries with
  | nil => rfl
  | cons a entries ih => exact ih

theorem lastPut_fillSandbox (ids : List String) (sid : String) :
    lastPut sid (ids.map fillSandbox) = none := by
  induction ids with
  | nil => rfl
  | cons id ids ih => exact ih

theorem firstFill_fillSandbox (ids : List String) (sid : String) :
    firstFill sid (ids.map fillSandbox) = if sid ∈ ids then some "sandbox" else none := by
  induction ids with
  | nil => rfl
  | cons id ids ih =>
    rw [List.map_cons, fillSandbox, firstFill, ih]
    by_cases h : id = sid
    · simp [h]
    · simp [h, Ne.symm h]

theorem get?_applyAnnounces (registry : Registry) (entries : List Announce) (sid : String) :
    (applyAnnounces registry entries).get? sid =
      (newestMode entries sid).or (registry.get? sid) := by
  rw [applyAnnounces_eq_writeAll, get?_writeAll, lastPut_putAnnounce, firstFill_putAnnounce,
    Option.or_none]

theorem get?_applyFallbackScan (keys : List String) (registry : Registry) (sid : String) :
    (applyFallbackScan keys registry).get? sid =
      (registry.get? sid).or (if sid ∈ keys.map (lastSegment ':') then some "sandbox" else none) := by
  have hmap : (keys.map fun key => fillSandbox (lastSegment ':' key)) =
      (keys.map (lastSegment ':')).map fillSandbox := by
    rw [List.map_map]
    rfl
  rw [applyFallbackScan_eq_writeAll, hmap, get?_writeAll, lastPut_fillSandbox,
    firstFill_fillSandbox, Option.none_or]

end TinoHelm

import TinoHelm.Base.Machine
import TinoHelm.Spec.Registry

/-! A notifier process that follows the announce stream: `load_announce_history` at
start-up, then the polls and scans of `_autodiscover_loop`. -/

namespace TinoHelm
open Base

/-- The fields the readers decode are UTF-8 where they are present. -/
def WellEncoded (fields : Fields) : Prop :=
  ∀ name ∈ ["strategy_id", "mode", "nt_version", "tino_protocol_version"],
    ∀ b, fields.lookup name = some b → ∃ s, decodeUtf8 b = .ok s

/-- An entry of the announce stream; it may lack any of the fields. -/
structure AnnounceEntry where
  fields : Fields
  wellEncoded : WellEncoded fields

abbrev AnnounceStream := Log StreamId AnnounceEntry

def rawEntries (entries : List (StreamId × AnnounceEntry)) : List (StreamId × Fields) :=
  entries.map fun e => (e.1, e.2.fields)

structure Discovery where
  stream : AnnounceStream
  registry : Registry
  cursor : StreamId

def startup (stream : AnnounceStream) : Except PyError Discovery :=
  (loadAnnounceHistory (rawEntries stream.entries)).map fun r => ⟨stream, r.1, r.2⟩

inductive DiscoveryOp where
  | append (id : StreamId) (e : AnnounceEntry)
  | poll (count : ℕ)
  | scan (keys : List String)

namespace Discovery

/-- What `XREAD` answers from the cursor, in a batch of at most `count`. -/
def batch (d : Discovery) (count : ℕ) : List (StreamId × AnnounceEntry) :=
  (d.stream.after d.cursor).take count

def poll (d : Discovery) (count : ℕ) : Except PyError (List Announce × StreamId) :=
  readNewAnnounces d.cursor (rawEntries (d.batch count))

end Discovery

def discoveryStep (d : Discovery) : DiscoveryOp → Discovery
  | .append id e => { d with stream := d.stream.push id e }
  | .poll count =>
    match d.poll count with
    | .ok (entries, cursor) => { d with registry := applyAnnounces d.registry entries, cursor }
    | .error _ => d
  | .scan keys => { d with registry := applyFallbackScan keys d.registry }

def polled (d : Discovery) : DiscoveryOp → List Announce
  | .poll count =>
    match d.poll count with
    | .ok (entries, _) => entries
    | .error _ => []
  | _ => []

def scannedIds : DiscoveryOp → List String
  | .scan keys => keys.map (lastSegment ':')
  | _ => []

/-! The loop on a stream whose entries may hold any bytes. -/

/-- What `_autodiscover_loop` keeps between two of its turns. -/
structure AnnounceLoop where
  registry : Registry
  cursor : StreamId

/-- `XREAD` answers at most `count` entries; the fallback scan may be due. -/
structure Turn where
  count : ℕ
  scan : Option (List String)

namespace AnnounceLoop

def read (stream : Log StreamId Fields) (s : AnnounceLoop) (t : Turn) :
    Except PyError (List Announce × StreamId) :=
  readNewAnnounces s.cursor ((stream.after s.cursor).take t.count)

/-- One turn. An exception is logged and leaves registry and cursor as they were. -/
def turn (stream : Log StreamId Fields) (s : AnnounceLoop) (t : Turn) : AnnounceLoop :=
  match s.read stream t with
  | .error _ => s
  | .ok (entries, cursor) =>
    let registry := applyAnnounces s.registry entries
    ⟨t.scan.elim registry fun keys => applyFallbackScan keys registry, cursor⟩

def applied (stream : Log StreamId Fields) (s : AnnounceLoop) (t : Turn) : List Announce :=
  match s.read stream t with
  | .error _ => []
  | .ok (entries, _) => entries

end AnnounceLoop

def AnnounceEntry.announce (e : AnnounceEntry) : Option Announce :=
  ((readAnnounce e.fields).toOption).join

def announcesIn (entries : List (StreamId × AnnounceEntry)) : List Announce :=
  entries.filterMap fun e => e.2.announce

theorem decodeOr_wellEncoded {fields : Fields} (h : WellEncoded fields) (name : String)
    (hn : name ∈ ["strategy_id", "mode", "nt_version", "tino_protocol_version"]) :
    ∃ s, decodeOr fields name = .ok s := by
  unfold decodeOr
  cases hl : fields.lookup name with
  | none => exact ⟨"", rfl⟩
  | some b => exact h name hn b hl

/-- Both readers see the same in an entry: which announce it holds, or that it is
incomplete. -/
theorem readers_agree (e : AnnounceEntry) :
    readAnnounce e.fields = .ok e.announce ∧
      match e.fields.lookup "strategy_id", e.fields.lookup "mode" with
      | some sid, some mode => ∃ a, e.announce = some a ∧
          decodeUtf8 sid = .ok a.strategyId ∧ decodeUtf8 mode = .ok a.mode
      | _, _ => e.announce = none := by
  obtain ⟨nt, hnt⟩ := decodeOr_wellEncoded e.wellEncoded "nt_version" (by simp)
  obtain ⟨pv, hpv⟩ := decodeOr_wellEncoded e.wellEncoded "tino_protocol_version" (by simp)
  have hread : readAnnounce e.fields =
      match e.fields.lookup "strategy_id", e.fields.lookup "mode" with
      | some sid, some mode => do .ok (some ⟨← decodeUtf8 sid, ← decodeUtf8 mode, nt, pv⟩)
      | _, _ => .ok none := by
    simp only [readAnnounce, hnt, hpv]
    rfl
  rw [AnnounceEntry.announce, hread]
  cases hs : e.fields.lookup "strategy_id" with
  | none => simp [Except.toOption]
  | some sid =>
    cases hm : e.fields.lookup "mode" with
    | none => simp [Except.toOption]
    | some mode =>
      obtain ⟨s, hs'⟩ := e.wellEncoded "strategy_id" (by simp) sid hs
      obtain ⟨m, hm'⟩ := e.wellEncoded "mode" (by simp) mode hm
      simp [hs', hm', Except.toOption]

end TinoHelm

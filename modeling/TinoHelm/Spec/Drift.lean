import TinoHelm.Base.Once
import TinoHelm.Spec.Discovery
import TinoHelm.Spec.Intake

/-! The protocol drift warnings of `_autodiscover_loop` (`notifier/runner.py`). -/

namespace TinoHelm
open Base

/-- What the notifier compares announces with: `TINO_PROTOCOL_VERSION` and NT's version. -/
structure Versions where
  proto : String
  nt : String

/-- `(strategy_id, pod_proto, pod_nt_version)`, the key of the deduplication. -/
abbrev Triple := String × String × String

def Announce.triple (a : Announce) : Triple := (a.strategyId, a.protoVersion, a.ntVersion)

structure Drift where
  strategyId : String
  podProto : String
  notifierProto : String
  podNtVersion : String
  notifierNtVersion : String
deriving DecidableEq, Repr

namespace Drift

def envelope (d : Drift) : EventEnvelope where
  topic := "tinohelm.protocol_mismatch"
  body := .dict [(.str "strategy_id", .str d.strategyId), (.str "pod_proto", .str d.podProto),
    (.str "notifier_proto", .str d.notifierProto), (.str "pod_nt_version", .str d.podNtVersion),
    (.str "notifier_nt_version", .str d.notifierNtVersion)]

def key (d : Drift) : Triple := (d.strategyId, d.podProto, d.podNtVersion)

end Drift

/-- One envelope for each announce whose versions differ from ours. -/
def detectProtocolDrift (announces : List Announce) (expected : Versions) : List Drift :=
  announces.filterMap fun a =>
    let protoSkew := a.protoVersion ≠ expected.proto
    let ntSkew := a.ntVersion ≠ expected.nt
    if ¬(protoSkew ∨ ntSkew) then none
    else some ⟨a.strategyId, a.protoVersion, expected.proto, a.ntVersion, expected.nt⟩

/-- The loop with its `warned` set. `warnings.out` are the envelopes handed to
`forwarder.enqueue`, all of them for the logging channel; no call fails. -/
structure Autodiscover where
  discovery : Discovery
  warnings : Once Triple Drift := {}

/-- `main` up to the start of the loop: the history only fills the registry. -/
def startAutodiscover (history : AnnounceStream) : Except PyError Autodiscover :=
  (startup history).map fun d => { discovery := d }

def autodiscoverStep (expected : Versions) (s : Autodiscover) (op : DiscoveryOp) : Autodiscover where
  discovery := discoveryStep s.discovery op
  warnings := s.warnings.offerAll Drift.key (detectProtocolDrift (polled s.discovery op) expected)

def Autodiscover.enqueued (s : Autodiscover) (ch : Channels) (t : Triple) :
    List (EventEnvelope × ℤ) :=
  (s.warnings.out.filter fun d => d.key = t).map fun d => (d.envelope, ch.logging)

def driftOf (expected : Versions) (t : Triple) : Drift :=
  ⟨t.1, t.2.1, expected.proto, t.2.2, expected.nt⟩

def Drifting (expected : Versions) (t : Triple) : Prop :=
  t.2.1 ≠ expected.proto ∨ t.2.2 ≠ expected.nt

instance (expected : Versions) (t : Triple) : Decidable (Drifting expected t) :=
  inferInstanceAs (Decidable (_ ∨ _))

def triplesIn (announces : List Announce) : List Triple := announces.map Announce.triple

theorem detectProtocolDrift_append (as bs : List Announce) (expected : Versions) :
    detectProtocolDrift (as ++ bs) expected =
      detectProtocolDrift as expected ++ detectProtocolDrift bs expected := by
  simp [detectProtocolDrift]

/-- Only drifting announces give a warning, and it is that of their pod version. -/
theorem detectProtocolDrift_eq (announces : List Announce) (expected : Versions) :
    detectProtocolDrift announces expected =
      ((triplesIn announces).filter fun t => Drifting expected t).map (driftOf expected) := by
  rw [triplesIn, List.filter_map, List.map_map, ← List.filterMap_eq_map, List.filterMap_filter,
    detectProtocolDrift]
  congr 1
  funext a
  by_cases h : a.protoVersion ≠ expected.proto ∨ a.ntVersion ≠ expected.nt
  · have hd : Drifting expected a.triple := h
    simp only [h, not_true_eq_false, if_false, Function.comp_apply, hd, decide_true, if_true]
    rfl
  · have hd : ¬Drifting expected a.triple := h
    simp only [h, not_false_eq_true, if_true, Function.comp_apply, hd, decide_false]
    rfl

theorem find?_detectProtocolDrift (announces : List Announce) (expected : Versions) (t : Triple) :
    (detectProtocolDrift announces expected).find? (fun d => d.key = t) =
      if Drifting expected t ∧ t ∈ triplesIn announces then some (driftOf expected t) else none := by
  rw [detectProtocolDrift_eq]
  induction triplesIn announces with
  | nil => simp
  | cons u us ih =>
    have hkey : (driftOf expected u).key = u := rfl
    by_cases hu : Drifting expected u
    · rw [List.filter_cons_of_pos (by simpa using hu), List.map_cons]
      by_cases ht : u = t
      · subst ht
        simp [hkey, hu]
      · rw [List.find?_cons_of_neg (by simpa [hkey] using ht), ih]
        simp [Ne.symm ht]
    · rw [List.filter_cons_of_neg (by simpa using hu), ih]
      by_cases ht : t = u
      · subst ht
        simp [hu]
      · simp [ht]

end TinoHelm

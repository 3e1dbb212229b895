import TinoHelm.Proofs.RegistryConfluence
import TinoHelm.Spec.Drift

/-! Which pod versions a notifier warns of: those in the announces its loop reads, each
once. The start-up replay reads the history without looking at the versions. -/

namespace TinoHelm
open Base

/-- One envelope to the logging channel for each drifting pod version, no other one. -/
def WarnedOnce (expected : Versions) (ch : Channels) (s : Autodiscover)
    (announces : List Announce) : Prop :=
  ∀ t, s.enqueued ch t =
    if Drifting expected t ∧ t ∈ triplesIn announces then
      [((driftOf expected t).envelope, ch.logging)]
    else []

theorem enqueued_eq {expected : Versions} {s : Autodiscover} {announces : List Announce}
    (h : Once.Offered Drift.key s.warnings (detectProtocolDrift announces expected))
    (ch : Channels) : WarnedOnce expected ch s announces := by
  intro t
  rw [Autodiscover.enqueued, h.out, find?_detectProtocolDrift]
  split_ifs <;> rfl

/-- The loop follows the stream as before, and has offered what it polled for a warning. -/
theorem autodiscover_run (expected : Versions) (d : Discovery) (ops : List DiscoveryOp) :
    (run (autodiscoverStep expected) { discovery := d } ops).discovery = run discoveryStep d ops ∧
      Once.Offered Drift.key (run (autodiscoverStep expected) { discovery := d } ops).warnings
        (detectProtocolDrift (trace discoveryStep polled d ops) expected) := by
  refine run_history (I := fun pre (s : Autodiscover) => s.discovery = run discoveryStep d pre ∧
    Once.Offered Drift.key s.warnings
      (detectProtocolDrift (trace discoveryStep polled d pre) expected)) ?_ ?_ ops
  · exact ⟨rfl, Once.offered_empty Drift.key⟩
  · rintro pre op ⟨hd, hw⟩
    rw [run_snoc, trace_snoc, detectProtocolDrift_append, ← hd]
    exact ⟨rfl, hw.offerAll _⟩

theorem between_run (d : Discovery) {c : StreamId} (hc : c ≤ d.stream.lastId)
    (ops : List DiscoveryOp) :
    (run discoveryStep d ops).stream.between ⊥ c = d.stream.between ⊥ c := by
  refine (run_invariant (I := fun t : Discovery => c ≤ t.stream.lastId ∧
    t.stream.between ⊥ c = d.stream.between ⊥ c) ⟨hc, rfl⟩ (fun t op ⟨hle, heq⟩ => ?_) ops).2
  cases op with
  | append id e =>
    refine ⟨hle.trans (t.stream.lastId_le_push id e), ?_⟩
    exact (t.stream.between_push id e hle).trans heq
  | poll count =>
    simp only [discoveryStep]
    cases t.poll count <;> exact ⟨hle, heq⟩
  | scan keys => exact ⟨hle, heq⟩

/-- Once everything is read, what was polled are the announces behind the history. -/
theorem polled_eq_later {history : AnnounceStream} {d : Discovery} (hd : startup history = .ok d)
    (ops : List DiscoveryOp)
    (hdrained : (run discoveryStep d ops).stream.after (run discoveryStep d ops).cursor = []) :
    announcesIn (run discoveryStep d ops).stream.entries =
        announcesIn history.entries ++ trace discoveryStep polled d ops ∧
      trace discoveryStep polled d ops =
        announcesIn ((run discoveryStep d ops).stream.after history.lastId) := by
  have hrun := follows_run (follows_startup hd) ops
  have hall : announcesIn (run discoveryStep d ops).stream.entries =
      announcesIn history.entries ++ trace discoveryStep polled d ops := by
    rw [hrun.announces_eq, ← Log.after_bot, ← Log.between_append_after _ bot_le, hdrained,
      List.append_nil]
  refine ⟨hall, ?_⟩
  have hstream : d.stream = history := by
    rw [startup_eq, Except.ok.injEq] at hd
    rw [← hd]
  have hfront : (run discoveryStep d ops).stream.between ⊥ history.lastId = history.entries := by
    rw [between_run d (by rw [hstream]), hstream, ← List.append_nil (history.between _ _),
      ← history.after_lastId, Log.between_append_after _ bot_le, Log.after_bot]
  have hsplit := Log.between_append_after (run discoveryStep d ops).stream
    (bot_le : ⊥ ≤ history.lastId)
  rw [hfront, Log.after_bot] at hsplit
  rw [← hsplit, announcesIn, List.filterMap_append] at hall
  exact (List.append_cancel_left hall).symm

/-- Once the whole stream is read, every drifting pod version has been warned of exactly
once, if and only if each one of the history is announced again after the start. -/
theorem drift_warned_once_iff (expected : Versions) (ch : Channels) (history : AnnounceStream)
    (ops : List DiscoveryOp) :
    ∃ s₀, startAutodiscover history = .ok s₀ ∧
      let s := run (autodiscoverStep expected) s₀ ops
      (s.discovery.stream.after s.discovery.cursor = [] →
        (WarnedOnce expected ch s (announcesIn s.discovery.stream.entries) ↔
          ∀ t ∈ triplesIn (announcesIn history.entries), Drifting expected t →
            t ∈ triplesIn (announcesIn (s.discovery.stream.after history.lastId)))) := by
  obtain ⟨d, hd⟩ : ∃ d, startup history = .ok d := ⟨_, startup_eq history⟩
  refine ⟨{ discovery := d }, by rw [startAutodiscover, hd]; rfl, ?_⟩
  obtain ⟨hdisc, hoffered⟩ := autodiscover_run expected d ops
  dsimp only
  rw [hdisc]
  intro hdrained
  obtain ⟨hall, hlater⟩ := polled_eq_later hd ops hdrained
  have hwarned := enqueued_eq hoffered ch
  rw [WarnedOnce, hall, ← hlater]
  constructor
  · intro h t ht hdrift
    by_contra hnot
    have hmem : t ∈ triplesIn (announcesIn history.entries ++ trace discoveryStep polled d ops) := by
      rw [triplesIn, List.map_append]
      exact List.mem_append_left _ ht
    have heq := (h t).symm.trans (hwarned t)
    rw [if_pos ⟨hdrift, hmem⟩, if_neg fun hc => hnot hc.2] at heq
    cases heq
  · intro h t
    rw [hwarned t]
    refine if_congr (and_congr_right fun hdrift => ?_) rfl rfl
    rw [triplesIn, triplesIn, List.map_append, List.mem_append]
    exact ⟨Or.inr, fun hc => hc.elim (fun ht => h t ht hdrift) id⟩

theorem wellEncoded_of_text (fields : List (String × String)) :
    WellEncoded (fields.map fun e => (e.1, e.2.toByteArray)) := by
  intro name _ b hb
  obtain ⟨e, -, rfl⟩ : ∃ e ∈ fields, b = e.2.toByteArray := by
    induction fields with
    | nil => cases hb
    | cons e fields ih =>
      rw [List.map_cons, List.lookup_cons] at hb
      split at hb
      · exact ⟨e, List.mem_cons_self, (Option.some.inj hb).symm⟩
      · obtain ⟨e', he', rfl⟩ := ih hb
        exact ⟨e', List.mem_cons_of_mem e he', rfl⟩
  exact ⟨e.2, decodeUtf8_toByteArray e.2⟩

def textAnnounce (fields : List (String × String)) : AnnounceEntry where
  fields := fields.map fun e => (e.1, e.2.toByteArray)
  wellEncoded := wellEncoded_of_text fields

/-- A pod of an older NT has announced itself before the notifier starts. -/
def oldPod : AnnounceEntry :=
  textAnnounce [("strategy_id", "foo"), ("mode", "live"), ("nt_version", "1.226.0"),
    ("tino_protocol_version", "1")]

theorem announce_oldPod : oldPod.announce = some ⟨"foo", "live", "1.226.0", "1"⟩ := by
  simp [AnnounceEntry.announce, oldPod, textAnnounce, readAnnounce, decodeOr, List.lookup_cons,
    Except.toOption]

def oldPodHistory : AnnounceStream where
  entries := [(toLex (1, 0), oldPod)]
  sorted := List.pairwise_singleton _ _
  pos := by
    intro e he
    rw [List.mem_singleton.1 he]
    decide

/-- The upgraded notifier reads everything and never warns of the pod. -/
theorem history_drift_not_warned :
    let expected : Versions := ⟨"1", "1.227.0"⟩
    let t : Triple := ("foo", "1", "1.226.0")
    ∃ s₀, startAutodiscover oldPodHistory = .ok s₀ ∧
      let s := run (autodiscoverStep expected) s₀ [.scan [], .poll 10]
      s.discovery.stream.after s.discovery.cursor = [] ∧
        Drifting expected t ∧ t ∈ triplesIn (announcesIn s.discovery.stream.entries) ∧
        s.enqueued ⟨1, 2, 3⟩ t = [] ∧
        ¬WarnedOnce expected ⟨1, 2, 3⟩ s (announcesIn s.discovery.stream.entries) := by
  have hafter : oldPodHistory.after (toLex (1, 0)) = [] := oldPodHistory.after_lastId
  have hpoll : ∀ registry, Discovery.poll ⟨oldPodHistory, registry, toLex (1, 0)⟩ 10 =
      .ok ([], toLex (1, 0)) := by
    intro registry
    simp [Discovery.poll, Discovery.batch, hafter, rawEntries, readNewAnnounces]
  have hmem : ("foo", "1", "1.226.0") ∈ triplesIn (announcesIn oldPodHistory.entries) := by
    simp [triplesIn, announcesIn, oldPodHistory, announce_oldPod, Announce.triple]
  have hdrift : Drifting ⟨"1", "1.227.0"⟩ ("foo", "1", "1.226.0") := by decide
  refine ⟨_, by rw [startAutodiscover, startup_eq]; rfl, ?_⟩
  have hcursor : Log.cursorAfter ⊥ oldPodHistory.entries = toLex (1, 0) := rfl
  simp only [run_cons, run_nil, autodiscoverStep, discoveryStep, polled, hcursor, hpoll]
  refine ⟨hafter, hdrift, hmem, rfl, fun h => ?_⟩
  have ht := h ("foo", "1", "1.226.0")
  rw [if_pos ⟨hdrift, hmem⟩] at ht
  exact absurd (congrArg List.length ht) (by decide)

end TinoHelm

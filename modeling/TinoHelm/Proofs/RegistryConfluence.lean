import TinoHelm.Spec.Discovery

/-! The registry is a function of the announces processed and the ids scanned,
whatever their interleaving, and the two readers of the announce stream hand over
without a gap. -/

namespace TinoHelm
open Base

/-- Announced ids have the mode of their newest announce, scanned ids that were never
announced are `sandbox`, and there is nothing else. -/
def Determined (registry : Registry) (announces : List Announce) (scanned : List String) : Prop :=
  ∀ sid, registry.get? sid =
    (newestMode announces sid).or (if sid ∈ scanned then some "sandbox" else none)

theorem determined_empty : Determined .empty [] [] := by
  intro sid
  simp [newestMode]

variable {registry : Registry} {announces : List Announce} {scanned : List String}

theorem Determined.applyAnnounces (h : Determined registry announces scanned)
    (entries : List Announce) :
    Determined (applyAnnounces registry entries) (announces ++ entries) scanned := by
  intro sid
  rw [get?_applyAnnounces, newestMode_append, h sid, Option.or_assoc]

theorem Determined.applyFallbackScan (h : Determined registry announces scanned)
    (keys : List String) :
    Determined (applyFallbackScan keys registry) announces
      (scanned ++ keys.map (lastSegment ':')) := by
  intro sid
  rw [get?_applyFallbackScan, h sid, Option.or_assoc]
  congr 1
  by_cases h1 : sid ∈ scanned
  · simp [h1]
  · simp [h1]

theorem Determined.congr {registry' : Registry} (h : Determined registry announces scanned)
    (h' : Determined registry' announces scanned) (sid : String) :
    registry.get? sid = registry'.get? sid := by
  rw [h sid, h' sid]

/-- Entries that can be read leave their announces and the cursor behind them. -/
theorem readNewAnnounces_ok (announce : Fields → Option Announce)
    {response : List (StreamId × Fields)}
    (h : ∀ e ∈ response, readAnnounce e.2 = .ok (announce e.2)) (cursor : StreamId) :
    readNewAnnounces cursor response =
      .ok (response.filterMap fun e => announce e.2, Log.cursorAfter cursor response) := by
  have hfold : ∀ (acc : List Announce) (c : StreamId),
      response.foldlM
        (fun (acc : List Announce × StreamId) e => do
          let a ← readAnnounce e.2
          (.ok (acc.1 ++ a.toList, e.1) : Except PyError _)) (acc, c) =
        .ok (acc ++ response.filterMap (fun e => announce e.2), Log.cursorAfter c response) := by
    induction response with
    | nil => simp
    | cons e response ih =>
      intro acc c
      simp only [List.foldlM_cons, h e List.mem_cons_self, ok_bind]
      rw [ih fun e' he' => h e' (List.mem_cons_of_mem e he'), Log.cursorAfter_cons]
      cases ha : announce e.2 <;> simp [ha]
  exact hfold [] cursor

theorem readNewAnnounces_rawEntries (cursor : StreamId)
    (entries : List (StreamId × AnnounceEntry)) :
    readNewAnnounces cursor (rawEntries entries) =
      .ok (announcesIn entries, Log.cursorAfter cursor entries) := by
  rw [readNewAnnounces_ok fun fields => (readAnnounce fields).toOption.join]
  · rw [rawEntries, List.filterMap_map, Log.cursorAfter, List.foldl_map]
    rfl
  · intro e he
    obtain ⟨e', -, rfl⟩ := List.mem_map.1 he
    exact (readers_agree e'.2).1

theorem loadAnnounceHistory_rawEntries (entries : List (StreamId × AnnounceEntry)) :
    loadAnnounceHistory (rawEntries entries) =
      .ok (applyAnnounces .empty (announcesIn entries), Log.cursorAfter ⊥ entries) := by
  unfold loadAnnounceHistory
  generalize (.empty : Registry) = reg
  generalize (⊥ : StreamId) = c
  induction entries generalizing reg c with
  | nil => rfl
  | cons e entries ih =>
    rw [rawEntries, List.map_cons, List.foldlM_cons, ← rawEntries]
    obtain ⟨-, hread⟩ := readers_agree e.2
    rw [Log.cursorAfter_cons, announcesIn, List.filterMap_cons]
    cases hs : e.2.fields.lookup "strategy_id" with
    | none =>
      simp only [hs] at hread
      simp only [hread, ok_bind]
      exact ih reg e.1
    | some sid =>
      cases hm : e.2.fields.lookup "mode" with
      | none =>
        simp only [hs, hm] at hread
        simp only [hread, ok_bind]
        exact ih reg e.1
      | some mode =>
        simp only [hs, hm] at hread
        obtain ⟨a, ha, hsid, hmode⟩ := hread
        simp only [ha, hsid, hmode, ok_bind]
        exact ih (reg.set a.strategyId a.mode) e.1

theorem startup_eq (stream : AnnounceStream) :
    startup stream = .ok ⟨stream, applyAnnounces .empty (announcesIn stream.entries),
      Log.cursorAfter ⊥ stream.entries⟩ := by
  rw [startup, loadAnnounceHistory_rawEntries]
  rfl

/-- The notifier has processed the complete announces of the stream up to its cursor,
in order, and `scanned` ids. -/
structure Follows (d : Discovery) (announces : List Announce) (scanned : List String) : Prop where
  cursor_le : d.cursor ≤ d.stream.lastId
  announces_eq : announces = announcesIn (d.stream.between ⊥ d.cursor)
  determined : Determined d.registry announces scanned

theorem follows_startup {stream : AnnounceStream} {d : Discovery} (h : startup stream = .ok d) :
    Follows d (announcesIn stream.entries) [] := by
  rw [startup_eq, Except.ok.injEq] at h
  subst h
  have hall : stream.after ⊥ = stream.entries ++ [] := by simp
  obtain ⟨-, -, hle, hbetween⟩ := stream.read_batch hall
  refine ⟨hle bot_le, ?_, ?_⟩
  · rw [hbetween ⊥ le_rfl, Log.between_self, List.nil_append]
  · simpa using determined_empty.applyAnnounces (announcesIn stream.entries)

theorem Follows.step {d : Discovery} (h : Follows d announces scanned) (op : DiscoveryOp) :
    Follows (discoveryStep d op) (announces ++ polled d op) (scanned ++ scannedIds op) := by
  cases op with
  | append id e =>
    simp only [discoveryStep, polled, scannedIds, List.append_nil]
    refine ⟨h.cursor_le.trans (d.stream.lastId_le_push id e), ?_, h.determined⟩
    rw [d.stream.between_push id e h.cursor_le, ← h.announces_eq]
  | poll count =>
    have hsplit : d.stream.after d.cursor = d.batch count ++ (d.stream.after d.cursor).drop count :=
      (List.take_append_drop count _).symm
    obtain ⟨-, hle, hlast, hbetween⟩ := d.stream.read_batch hsplit
    have hpoll : d.poll count =
        .ok (announcesIn (d.batch count), Log.cursorAfter d.cursor (d.batch count)) :=
      readNewAnnounces_rawEntries _ _
    simp only [discoveryStep, polled, hpoll, scannedIds, List.append_nil]
    refine ⟨hlast h.cursor_le, ?_, h.determined.applyAnnounces _⟩
    rw [hbetween ⊥ bot_le, h.announces_eq]
    simp [announcesIn]
  | scan keys =>
    simp only [discoveryStep, polled, scannedIds, List.append_nil]
    exact ⟨h.cursor_le, h.announces_eq, h.determined.applyFallbackScan keys⟩

theorem follows_run {d : Discovery} (h : Follows d announces []) (ops : List DiscoveryOp) :
    Follows (run discoveryStep d ops) (announces ++ trace discoveryStep polled d ops)
      (ops.flatMap scannedIds) := by
  refine run_history (I := fun pre t =>
    Follows t (announces ++ trace discoveryStep polled d pre) (pre.flatMap scannedIds)) ?_ ?_ ops
  · simpa [trace] using h
  · intro pre op ih
    rw [trace_snoc, List.flatMap_append, List.flatMap_singleton, ← List.append_assoc]
    exact ih.step op

/-- The keys all scans of a run saw. -/
def scannedKeys (ops : List DiscoveryOp) : List String :=
  ops.flatMap fun
    | .scan keys => keys
    | _ => []

theorem map_scannedKeys (ops : List DiscoveryOp) :
    (scannedKeys ops).map (lastSegment ':') = ops.flatMap scannedIds := by
  rw [scannedKeys, List.map_flatMap]
  congr 1
  funext op
  cases op <;> rfl

/-- Whatever the split into replay and polls, the batches and the scans: each complete
announce up to the cursor is applied once and in order, these and the scanned ids
determine the registry, and once everything is read it is that of a notifier restarted
now that scans the same keys. -/
theorem registry_confluent (history : AnnounceStream) (ops : List DiscoveryOp) :
    ∃ d₀ d₁, startup history = .ok d₀ ∧
      startup (run discoveryStep d₀ ops).stream = .ok d₁ ∧
      announcesIn history.entries ++ trace discoveryStep polled d₀ ops =
        announcesIn ((run discoveryStep d₀ ops).stream.between ⊥ (run discoveryStep d₀ ops).cursor) ∧
      Determined (run discoveryStep d₀ ops).registry
        (announcesIn history.entries ++ trace discoveryStep polled d₀ ops)
        (ops.flatMap scannedIds) ∧
      ((run discoveryStep d₀ ops).stream.after (run discoveryStep d₀ ops).cursor = [] →
        announcesIn history.entries ++ trace discoveryStep polled d₀ ops =
          announcesIn (run discoveryStep d₀ ops).stream.entries ∧
        ∀ sid, (run discoveryStep d₀ ops).registry.get? sid =
          (applyFallbackScan (scannedKeys ops) d₁.registry).get? sid) := by
  obtain ⟨d₀, hd₀⟩ : ∃ d, startup history = .ok d := ⟨_, startup_eq history⟩
  obtain ⟨d₁, hd₁⟩ : ∃ d, startup (run discoveryStep d₀ ops).stream = .ok d := ⟨_, startup_eq _⟩
  have hrun := follows_run (follows_startup hd₀) ops
  refine ⟨d₀, d₁, hd₀, hd₁, hrun.announces_eq, hrun.determined, fun hdrained => ?_⟩
  have hall : announcesIn history.entries ++ trace discoveryStep polled d₀ ops =
      announcesIn (run discoveryStep d₀ ops).stream.entries := by
    rw [hrun.announces_eq, ← Log.after_bot, ← Log.between_append_after _ bot_le, hdrained,
      List.append_nil]
  refine ⟨hall, fun sid => ?_⟩
  have hrestart := (follows_startup hd₁).determined.applyFallbackScan (scannedKeys ops)
  rw [List.nil_append, map_scannedKeys, ← hall] at hrestart
  exact hrun.determined.congr hrestart sid

end TinoHelm

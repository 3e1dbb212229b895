import TinoHelm.Spec.Registry
import TinoHelm.Spec.StrategyFile

/-! What the fallback scan makes of control streams. It takes what stands behind the last
colon of a key for the id, which is the id itself only when that has no colon. -/

namespace TinoHelm
open Base

/-- The scan when the control streams of the ids are there, in whatever order they come. -/
def scanned (ids : List String) (registry : Registry) : Registry :=
  applyFallbackScan (ids.map controlStreamKey) registry

/-- The scan adds the ids that are not registered as sandbox ones, and nothing else. -/
structure ScanRecovers (ids : List String) (registry : Registry) : Prop where
  kept : ∀ sid ∈ registry.keys, (scanned ids registry).get? sid = registry.get? sid
  added : ∀ sid ∉ registry.keys,
    (scanned ids registry).get? sid = if sid ∈ ids then some "sandbox" else none
  again : scanned ids (scanned ids registry) = scanned ids registry

theorem lastSegment_controlStreamKey (sid : String) :
    lastSegment ':' (controlStreamKey sid) = lastSegment ':' sid :=
  lastSegment_append ':' "tinohelm:control" sid

theorem get?_scanned (ids : List String) (registry : Registry) (sid : String) :
    (scanned ids registry).get? sid =
      (registry.get? sid).or (if sid ∈ ids.map (lastSegment ':') then some "sandbox" else none) := by
  rw [scanned, get?_applyFallbackScan, List.map_map]
  simp only [Function.comp_def, lastSegment_controlStreamKey]

theorem applyFallbackScan_of_known {keys : List String} {registry : Registry}
    (h : ∀ key ∈ keys, lastSegment ':' key ∈ registry.keys) :
    applyFallbackScan keys registry = registry := by
  induction keys with
  | nil => rfl
  | cons key keys ih =>
    have hset : registry.setdefault (lastSegment ':' key) "sandbox" = registry := by
      rw [Dict.setdefault, if_pos (h key List.mem_cons_self)]
    rw [applyFallbackScan, List.foldl_cons, hset]
    exact ih fun k hk => h k (List.mem_cons_of_mem key hk)

theorem scanned_again (ids : List String) (registry : Registry) :
    scanned ids (scanned ids registry) = scanned ids registry := by
  refine applyFallbackScan_of_known fun key hkey => ?_
  obtain ⟨sid, hsid, rfl⟩ := List.mem_map.1 hkey
  rw [← Dict.get?_isSome_iff, get?_scanned, lastSegment_controlStreamKey,
    if_pos (List.mem_map_of_mem hsid)]
  cases registry.get? (lastSegment ':' sid) <;> rfl

/-- Only the ids that come out for the unregistered ones matter. -/
theorem scanRecovers_iff_segments (ids : List String) (registry : Registry) :
    ScanRecovers ids registry ↔
      ∀ sid ∉ registry.keys, sid ∈ ids.map (lastSegment ':') ↔ sid ∈ ids := by
  constructor
  · intro h sid hsid
    have hget := h.added sid hsid
    rw [get?_scanned, (Dict.get?_eq_none_iff _ _).2 hsid, Option.none_or] at hget
    by_cases h1 : sid ∈ ids.map (lastSegment ':')
    · by_cases h2 : sid ∈ ids
      · exact iff_of_true h1 h2
      · simp [h1, h2] at hget
    · by_cases h2 : sid ∈ ids
      · simp [h1, h2] at hget
      · exact iff_of_false h1 h2
  · intro h
    refine ⟨fun sid hsid => ?_, fun sid hsid => ?_, scanned_again ids registry⟩
    · obtain ⟨mode, hmode⟩ := Option.isSome_iff_exists.1 ((Dict.get?_isSome_iff _ _).2 hsid)
      rw [get?_scanned, hmode, Option.some_or]
    · rw [get?_scanned, (Dict.get?_eq_none_iff _ _).2 hsid, Option.none_or]
      simp only [h sid hsid]

/-- The scan recovers the ids exactly when each one with a colon is registered, and what
stands behind its last colon is registered or an id of its own. -/
theorem fallback_scan_recovers_iff (ids : List String) (registry : Registry) :
    ScanRecovers ids registry ↔
      ∀ sid ∈ ids, ∀ p t, sid = p ++ ":" ++ t → ':' ∉ t.toList →
        sid ∈ registry.keys ∧ (t ∈ registry.keys ∨ t ∈ ids) := by
  rw [scanRecovers_iff_segments]
  constructor
  · rintro h _ hsid p t rfl ht
    have hseg : lastSegment ':' (p ++ ":" ++ t) = t :=
      (lastSegment_append ':' p t).trans (lastSegment_of_not_mem ht)
    constructor
    · by_contra hreg
      -- an id that came out has no colon
      obtain ⟨s, -, hs⟩ := List.mem_map.1 ((h _ hreg).2 hsid)
      refine not_mem_lastSegment ':' s ?_
      rw [hs]
      simp
    · by_contra hno
      rw [not_or] at hno
      exact hno.2 ((h t hno.1).1 (List.mem_map.2 ⟨_, hsid, hseg⟩))
  · intro h sid hreg
    constructor
    · intro hmem
      obtain ⟨s, hs, rfl⟩ := List.mem_map.1 hmem
      by_cases hc : ':' ∈ s.toList
      · obtain ⟨p, hp⟩ := exists_eq_append_lastSegment hc
        exact ((h s hs p _ hp (not_mem_lastSegment ':' s)).2).resolve_left hreg
      · rwa [lastSegment_of_not_mem hc]
    · intro hmem
      have hc : ':' ∉ sid.toList := by
        intro hc
        obtain ⟨p, hp⟩ := exists_eq_append_lastSegment hc
        exact hreg (h sid hmem p _ hp (not_mem_lastSegment ':' sid)).1
      exact List.mem_map.2 ⟨sid, hmem, lastSegment_of_not_mem hc⟩

def colonFile : Value := .dict [(.str "strategy", .dict [(.str "id", .str "a:b")])]

/-- The file is accepted, and the scan registers `b` in place of its strategy. -/
theorem colon_id_not_recovered :
    (∃ file, TinoStrategyFile.load ⟨none, none⟩ "a.toml" colonFile = .ok file ∧
        file.strategyId = "a:b") ∧
      ¬ScanRecovers ["a:b"] .empty ∧
      (scanned ["a:b"] .empty).entries = [("b", "sandbox")] := by
  refine ⟨⟨_, rfl, rfl⟩, fun h => ?_, by decide⟩
  have hget := h.added "a:b" (by simp)
  rw [get?_scanned] at hget
  exact absurd hget (by decide)

end TinoHelm

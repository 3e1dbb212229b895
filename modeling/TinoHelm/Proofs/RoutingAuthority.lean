import TinoHelm.Proofs.Resolution

/-! Routing resolves the id of an event, authorisation looks it up as it is. The two
decisions differ exactly on the ids that are no key and whose longest match is live. -/

namespace TinoHelm
open Base

/-- The events of `strategyId` go to the channel its commands are accepted from. -/
def RoutingAgrees (strategyId : String) (registry : Registry) (ch : Channels) : Prop :=
  (routeChannel strategyId registry ch = ch.live ↔
      validateCommandChannel strategyId "live" registry = .ok ()) ∧
    (routeChannel strategyId registry ch = ch.sandbox ↔
      validateCommandChannel strategyId "sandbox" registry = .ok ())

/-- The longest key that `strategyId` ends in behind a hyphen is announced as live. -/
def LongestMatchLive (strategyId : String) (registry : Registry) : Prop :=
  ∃ key, registry.get? key = some "live" ∧ IsSuffixKey strategyId key ∧
    ∀ other ∈ registry.keys, IsSuffixKey strategyId other → other.length ≤ key.length

theorem validateCommandChannel_live_iff (strategyId : String) (registry : Registry) :
    validateCommandChannel strategyId "live" registry = .ok () ↔
      registry.get? strategyId = some "live" := by
  rw [validateCommandChannel, if_neg (by decide)]
  cases h : registry.get? strategyId with
  | none => simp
  | some mode => by_cases hm : mode = "live" <;> simp [hm]

theorem validateCommandChannel_sandbox_iff (strategyId : String) (registry : Registry) :
    validateCommandChannel strategyId "sandbox" registry = .ok () ↔
      registry.get? strategyId ≠ some "live" := by
  rw [validateCommandChannel, if_neg (by decide)]
  cases h : registry.get? strategyId with
  | none => simp
  | some mode => by_cases hm : mode = "live" <;> simp [hm]

theorem resolveHandle_live_iff {strategyId : String} {registry : Registry}
    (h : strategyId ∉ registry.keys) :
    registry.get? (resolveHandle strategyId registry) = some "live" ↔
      LongestMatchLive strategyId registry := by
  obtain ⟨best, hbest, hr⟩ := resolveHandle_of_not_mem h
  rw [hr]
  cases best with
  | none =>
    rw [Option.getD_none, (registry.get?_eq_none_iff _).2 h]
    refine iff_of_false (by simp) ?_
    rintro ⟨key, hlive, hm, -⟩
    exact hbest key (Dict.mem_keys_of_get? hlive) hm
  | some best =>
    obtain ⟨hmem, hm, hmax⟩ := hbest
    rw [Option.getD_some]
    constructor
    · exact fun hlive => ⟨best, hlive, hm, hmax⟩
    · rintro ⟨key, hlive, hkey, hkmax⟩
      have hle := hmax key (Dict.mem_keys_of_get? hlive) hkey
      obtain rfl := hkey.eq_of_length hm (hle.antisymm (hkmax best hmem hm))
      exact hlive

theorem routeChannel_of_ne {strategyId : String} (h : strategyId ≠ "") (registry : Registry)
    (ch : Channels) :
    routeChannel strategyId registry ch =
      if registry.get? (resolveHandle strategyId registry) = some "live" then ch.live
      else ch.sandbox := by
  rw [routeChannel, if_neg h]

/-- With distinct channels, both decisions agree iff resolving the id does not change
whether it is live. -/
theorem routingAgrees_iff_resolved {strategyId : String} (h : strategyId ≠ "")
    (registry : Registry) (ch : Channels) :
    RoutingAgrees strategyId registry ch ↔ ch.sandbox ≠ ch.live ∧
      (registry.get? (resolveHandle strategyId registry) = some "live" ↔
        registry.get? strategyId = some "live") := by
  rw [RoutingAgrees, validateCommandChannel_live_iff, validateCommandChannel_sandbox_iff,
    routeChannel_of_ne h]
  by_cases hr : registry.get? (resolveHandle strategyId registry) = some "live"
  · rw [if_pos hr]
    by_cases hs : registry.get? strategyId = some "live"
    · simp [hr, hs, eq_comm]
    · simp [hr, hs]
  · rw [if_neg hr]
    by_cases hs : registry.get? strategyId = some "live"
    · simp [hr, hs]
    · simp [hr, hs]

/-- Routing and authorisation agree on an id exactly if it is a key itself or its longest
match is not live. -/
theorem routing_agrees_iff {strategyId : String} (h : strategyId ≠ "") (registry : Registry)
    (ch : Channels) :
    RoutingAgrees strategyId registry ch ↔ ch.sandbox ≠ ch.live ∧
      (strategyId ∈ registry.keys ∨ ¬LongestMatchLive strategyId registry) := by
  rw [routingAgrees_iff_resolved h]
  refine and_congr_right fun _ => ?_
  by_cases hs : strategyId ∈ registry.keys
  · simp [resolveHandle_of_mem hs, hs]
  · rw [resolveHandle_live_iff hs, (registry.get?_eq_none_iff _).2 hs]
    simp [hs]

/-- A registered handle. -/
theorem routing_agrees_iff_handle :
    RoutingAgrees "foo" (Dict.empty.set "foo" "live") ⟨1, 2, 3⟩ :=
  (routing_agrees_iff (by decide) _ _).2 ⟨by decide, Or.inl (by decide)⟩

/-- The id in the fills of the live pod `foo`: routed to the live channel, whose commands
for it are rejected, while the sandbox channel's are accepted. -/
theorem live_id_rejected_on_live :
    let registry : Registry := Dict.empty.set "foo" "live"
    let ch : Channels := ⟨1, 2, 3⟩
    routeChannel "Foo-foo" registry ch = ch.live ∧
      validateCommandChannel "Foo-foo" "live" registry ≠ .ok () ∧
      validateCommandChannel "Foo-foo" "sandbox" registry = .ok () ∧
      ¬RoutingAgrees "Foo-foo" registry ch := by
  have hr : routeChannel "Foo-foo" (Dict.empty.set "foo" "live") ⟨1, 2, 3⟩ = 2 := by decide
  have hv : validateCommandChannel "Foo-foo" "live" (Dict.empty.set "foo" "live") ≠ .ok () := by
    rw [Ne, validateCommandChannel_live_iff]
    decide
  refine ⟨hr, hv, ?_, fun h => hv (h.1.1 hr)⟩
  rw [validateCommandChannel_sandbox_iff]
  decide

end TinoHelm

import TinoHelm.Proofs.RegistryConfluence
import TinoHelm.Proofs.Resolution
import TinoHelm.Spec.Intake
import TinoHelm.Spec.Notifier

/-! Where the events of a live strategy go. A scan registers whatever id somebody once
published a command to, and an id that is a key resolves to itself: that is the one way
the live flow of a handle is lost. -/

namespace TinoHelm
open Base

/-- The ids an operation of the notifier derives from the control keys it sees. -/
def scannedBy (s : Notifier) : NotifierOp → List String
  | .scan keys => (s.scanKeys keys).map (lastSegment ':')
  | _ => []

def scannedIn (ch : Channels) (ops : List NotifierOp) : List String :=
  trace (notifierStep ch) scannedBy {} ops

@[simp] theorem registry_addKey (s : Notifier) (key : String) :
    (s.addKey key).registry = s.registry := rfl

@[simp] theorem registry_xadd (s : Notifier) (n : ℕ) : (s.xadd n).registry = s.registry := by
  unfold Notifier.xadd
  split <;> rfl

/-- Along every run, announces and scans determine the registry; commands do not touch it. -/
theorem determined_notifierAfter (ch : Channels) (ops : List NotifierOp) :
    Determined (notifierAfter ch ops).registry (announced ops) (scannedIn ch ops) := by
  refine run_history
    (I := fun pre (s : Notifier) => Determined s.registry (announced pre) (scannedIn ch pre)) ?_ ?_ ops
  · simpa [announced, scannedIn, trace] using determined_empty
  · intro pre op ih
    rw [announced, List.flatMap_append, List.flatMap_singleton, ← announced, scannedIn, trace_snoc,
      ← scannedIn]
    cases op with
    | announces entries =>
      simpa [scannedBy, notifierStep, Notifier.perform] using ih.applyAnnounces entries
    | scan keys => simpa [scannedBy, notifierStep, Notifier.perform] using ih.applyFallbackScan _
    | slash i => simpa [scannedBy, notifierStep, Notifier.perform, Notifier.issue] using ih
    | xadd n => simpa [scannedBy, notifierStep, Notifier.perform] using ih
    | cli strategyId action reason =>
      simpa [scannedBy, notifierStep, Notifier.perform] using ih

/-- In a run, `handle` is live and no pod announces the StrategyId of its class. -/
structure LiveHandle (ops : List NotifierOp) (className handle : String) : Prop where
  live : newestMode (announced ops) handle = some "live"
  hyphenFree : '-' ∉ className.toList
  nonempty : className ≠ ""
  unannounced : newestMode (announced ops) (ntStrategyId className handle) = none

/-- Every event of the strategy id that is not `tinohelm.*` is routed to the live channel. -/
def FlowsLive (ch : Channels) (registry : Registry) (strategyId : String) : Prop :=
  ∀ (dec : Decoders) (topic : String) (payload : Raw) (env : EventEnvelope),
    startsWith topic "tinohelm." = false → envelopeFor dec topic payload = .ok env →
    env.body.get "strategy_id" = .str strategyId →
    routeEvent dec topic payload registry ch = .ok (env, ch.live)

/-- Events of a non-empty strategy id are routed by the registry alone. -/
theorem flowsLive_iff (ch : Channels) (registry : Registry) {strategyId : String}
    (hne : strategyId ≠ "") :
    FlowsLive ch registry strategyId ↔ routeChannel strategyId registry ch = ch.live := by
  have hroute : ∀ {dec : Decoders} {topic : String} {payload : Raw} {env : EventEnvelope},
      startsWith topic "tinohelm." = false → envelopeFor dec topic payload = .ok env →
      env.body.get "strategy_id" = .str strategyId →
      routeEvent dec topic payload registry ch =
        .ok (env, routeChannel strategyId registry ch) := by
    intro dec topic payload env ht he hs
    simp [routeEvent, he, Except.map, scopeOf, ht, extractStrategyIdFromBody, hs, hne]
  constructor
  · intro hflow
    let dec : Decoders := ⟨fun _ => .error .decodeError, fun _ => .error .decodeError⟩
    let body : List (Value × Value) := [(.str "strategy_id", .str strategyId)]
    have ht : startsWith "events.order.x" "tinohelm." = false := by decide
    have he : envelopeFor dec "events.order.x" (.dict body) = .ok ⟨_, .dict body⟩ := rfl
    have hs : (Value.dict body).get "strategy_id" = .str strategyId := by
      simp [body, Value.get, Value.lookup?]
    have := hflow dec "events.order.x" (.dict body) _ ht he hs
    rw [hroute ht he hs] at this
    simpa using this
  · intro h dec topic payload env ht he hs
    rw [hroute ht he hs, h]

variable {ch : Channels} {ops : List NotifierOp} {className handle : String}

theorem LiveHandle.route (h : LiveHandle ops className handle) (ch : Channels) :
    routeChannel (ntStrategyId className handle) (notifierAfter ch ops).registry ch =
      if ntStrategyId className handle ∈ scannedIn ch ops then ch.sandbox else ch.live := by
  have hdet := determined_notifierAfter ch ops
  have hne := ntStrategyId_ne_empty className handle
  have hid := hdet (ntStrategyId className handle)
  have hlive := hdet handle
  rw [h.live, Option.some_or] at hlive
  rw [h.unannounced, Option.none_or] at hid
  rw [routeChannel, if_neg hne]
  by_cases hscan : ntStrategyId className handle ∈ scannedIn ch ops
  · rw [if_pos hscan] at hid
    rw [if_pos hscan, resolveHandle_of_mem (Dict.mem_keys_of_get? hid), hid, if_neg (by decide)]
  · -- the id is no key, so the handle is the longest match
    rw [if_neg hscan] at hid
    rw [if_neg hscan, resolveHandle_ntStrategyId h.hyphenFree (Dict.mem_keys_of_get? hlive)
      ((Dict.get?_eq_none_iff _ _).1 hid), hlive, if_pos rfl]

/-- The flow of a live handle stays on the live channel exactly when no scan saw a
control key that ends in the StrategyId, or both channels are one. -/
theorem live_flow_iff (ch : Channels) (h : LiveHandle ops className handle) :
    FlowsLive ch (notifierAfter ch ops).registry (ntStrategyId className handle) ↔
      ch.sandbox = ch.live ∨ ntStrategyId className handle ∉ scannedIn ch ops := by
  rw [flowsLive_iff _ _ (ntStrategyId_ne_empty className handle), h.route ch]
  split_ifs with hscan
  · simp [hscan]
  · simp [hscan]

/-- Pod `foo` announces itself live, somebody pauses `Foo-foo` from the shell, a scan runs. -/
def pausedById : List NotifierOp :=
  [.announces [⟨"foo", "live", "1", "1"⟩], .cli "Foo-foo" "pause" none,
    .scan ["tinohelm:control:Foo-foo"]]

theorem liveHandle_pausedById : LiveHandle pausedById "Foo" "foo" :=
  ⟨by decide, by decide, by decide, by decide⟩

theorem live_flow_iff_pausedById :
    LiveHandle pausedById "Foo" "foo" ∧
      (FlowsLive ⟨1, 2, 3⟩ (notifierAfter ⟨1, 2, 3⟩ pausedById).registry
          (ntStrategyId "Foo" "foo") ↔
        (1 : ℤ) = 2 ∨ ntStrategyId "Foo" "foo" ∉ scannedIn ⟨1, 2, 3⟩ pausedById) :=
  ⟨liveHandle_pausedById, live_flow_iff ⟨1, 2, 3⟩ liveHandle_pausedById⟩

/-- From then on the events of the live strategy go to the sandbox channel. -/
theorem live_flow_leaves :
    ¬ ∀ className handle, LiveHandle pausedById className handle →
      FlowsLive ⟨1, 2, 3⟩ (notifierAfter ⟨1, 2, 3⟩ pausedById).registry
        (ntStrategyId className handle) := by
  intro h
  have hflow := h "Foo" "foo" liveHandle_pausedById
  rw [flowsLive_iff _ _ (by decide), liveHandle_pausedById.route] at hflow
  exact absurd hflow (by decide)

end TinoHelm

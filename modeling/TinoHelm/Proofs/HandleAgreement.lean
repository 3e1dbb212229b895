import TinoHelm.Proofs.Resolution
import TinoHelm.Spec.StrategyFile

/-! The handle a pod announces and the id NT puts into its events: the notifier maps the
second back to the first exactly as long as the tag in force ends in the handle. -/

namespace TinoHelm
open Base

/-- The channel of an announced mode. -/
def Channels.ofMode (ch : Channels) (mode : String) : Option ℤ :=
  if mode = "live" then some ch.live else if mode = "sandbox" then some ch.sandbox else none

/-- The registry has the handle with its mode, and no other key the id could resolve to. -/
structure OnlyMatch (registry : Registry) (strategyId handle mode : String) : Prop where
  registered : registry.get? handle = some mode
  alone : ∀ key ∈ registry.keys, key ≠ handle → key ≠ strategyId ∧ ¬IsSuffixKey strategyId key

theorem OnlyMatch.resolveHandle_iff {registry : Registry} {strategyId handle mode : String}
    (h : OnlyMatch registry strategyId handle mode) :
    resolveHandle strategyId registry = handle ↔
      strategyId = handle ∨ IsSuffixKey strategyId handle := by
  have hkey := Dict.mem_keys_of_get? h.registered
  by_cases hs : strategyId = handle
  · subst hs
    simp [resolveHandle_of_mem hkey]
  · have hmem : strategyId ∉ registry.keys := fun hm => (h.alone _ hm hs).1 rfl
    obtain ⟨best, hbest, hr⟩ := resolveHandle_of_not_mem hmem
    rw [hr, or_iff_right hs]
    cases best with
    | none => exact iff_of_false hs (hbest handle hkey)
    | some key =>
      obtain ⟨hk, hm, -⟩ := hbest
      have he : key = handle := by
        by_contra hne
        exact (h.alone _ hk hne).2 hm
      exact iff_of_true he (he ▸ hm)

theorem OnlyMatch.routeChannel {registry : Registry} {strategyId handle mode : String}
    (h : OnlyMatch registry strategyId handle mode) (hne : strategyId ≠ "")
    (hmode : mode = "live" ∨ mode = "sandbox") (hr : resolveHandle strategyId registry = handle)
    (ch : Channels) : some (routeChannel strategyId registry ch) = ch.ofMode mode := by
  rw [TinoHelm.routeChannel, if_neg hne, hr, h.registered, Channels.ofMode]
  rcases hmode with rfl | rfl <;> simp

/-- The pod's native events resolve to the handle it announces, and so reach the channel
of its mode, exactly if its file sets no tag of its own or one that leads to the handle. -/
theorem announced_handle_resolved_iff {env : LoadEnv} {path : String} {raw : Value}
    {file : TinoStrategyFile} {config : ImportableStrategyConfig} {tag className : String}
    {registry : Registry} {ntVersion handle mode : String} {tsMs : ℕ}
    (hload : TinoStrategyFile.load env path raw = .ok file)
    (hbuild : buildStrategyImports file = .ok [config])
    (htag : config.orderIdTag = some tag) (hy : '-' ∉ className.toList)
    (hid : (publishAnnounce file ntVersion tsMs).lookup "strategy_id" = some (.str handle))
    (hmode : (publishAnnounce file ntVersion tsMs).lookup "mode" = some (.str mode))
    (hreg : OnlyMatch registry (ntStrategyId className tag) handle mode) (ch : Channels) :
    (resolveHandle (ntStrategyId className tag) registry = handle ∧
        some (routeChannel (ntStrategyId className tag) registry ch) = ch.ofMode mode) ↔
      ∀ own, file.ownTag = some (.str own) →
        own = handle ∨ endsWith own ("-" ++ handle) = true ∨ ntStrategyId className own = handle := by
  obtain ⟨-, -, hm, -⟩ := TinoStrategyFile.load_ok hload
  obtain rfl : file.strategyId = handle := Value.str.inj (Option.some.inj hid)
  obtain rfl : file.mode = mode := Value.str.inj (Option.some.inj hmode)
  have hne := ntStrategyId_ne_empty className tag
  have hvalue : file.ownTag.getD (.str file.strategyId) = .str tag := by
    rw [ImportableStrategyConfig.orderIdTag, buildStrategyImports_tag hbuild] at htag
    split at htag
    · rename_i t ht
      obtain rfl := Option.some.inj htag
      exact Option.some.inj ht
    · cases htag
  have hroute : (resolveHandle (ntStrategyId className tag) registry = file.strategyId ∧
      some (routeChannel (ntStrategyId className tag) registry ch) = ch.ofMode file.mode) ↔
        resolveHandle (ntStrategyId className tag) registry = file.strategyId :=
    ⟨And.left, fun hr => ⟨hr, hreg.routeChannel hne hm hr ch⟩⟩
  rw [hroute, hreg.resolveHandle_iff, isSuffixKey_ntStrategyId_iff hy]
  cases hown : file.ownTag with
  | none =>
    rw [hown, Option.getD_none] at hvalue
    simp [Value.str.inj hvalue]
  | some own =>
    rw [hown, Option.getD_some] at hvalue
    subst hvalue
    constructor
    · intro h t ht
      obtain rfl := Value.str.inj (Option.some.inj ht)
      rcases h with h | h | h
      · exact Or.inr (Or.inr h)
      · exact Or.inl h.symm
      · exact Or.inr (Or.inl h)
    · intro h
      rcases h tag rfl with h | h | h
      · exact Or.inr (Or.inl h.symm)
      · exact Or.inr (Or.inr h)
      · exact Or.inl h

/-- A live strategy file that sets this tag in its `[strategy]` table. -/
def fooFile (tag : String) : Value :=
  .dict [(.str "strategy", .dict [(.str "id", .str "foo"), (.str "class", .str "strategies:Foo"),
    (.str "mode", .str "live"), (.str "order_id_tag", .str tag)])]

def fooRegistry : Registry := Dict.empty.set "foo" "live"

theorem onlyMatch_foo {strategyId : String} : OnlyMatch fooRegistry strategyId "foo" "live" where
  registered := rfl
  alone _ hk hne := absurd (List.mem_singleton.1 hk) hne

/-- A tag that ends in the handle is resolved. -/
theorem announced_handle_resolved_iff_suffixTag :
    resolveHandle (ntStrategyId "Foo" "v2-foo") fooRegistry = "foo" ∧
      some (routeChannel (ntStrategyId "Foo" "v2-foo") fooRegistry ⟨1, 2, 3⟩) =
        (⟨1, 2, 3⟩ : Channels).ofMode "live" := by
  have hload : TinoStrategyFile.load ⟨none, none⟩ "foo.toml" (fooFile "v2-foo") = .ok _ := rfl
  have hy : '-' ∉ "Foo".toList := by decide
  refine (@announced_handle_resolved_iff _ _ _ _ _ _ _ _ "1" _ _ 0 hload rfl rfl hy rfl rfl
    onlyMatch_foo ⟨1, 2, 3⟩).2 ?_
  intro own hown
  obtain rfl : "v2-foo" = own := Value.str.inj (Option.some.inj hown)
  exact Or.inr (Or.inl (by decide))

/-- With the tag `001` the live pod's events are those of an unknown strategy. -/
theorem own_tag_misroutes :
    ∃ file config, TinoStrategyFile.load ⟨none, none⟩ "foo.toml" (fooFile "001") = .ok file ∧
      buildStrategyImports file = .ok [config] ∧ config.orderIdTag = some "001" ∧
      (publishAnnounce file "1" 0).lookup "strategy_id" = some (.str "foo") ∧
      (publishAnnounce file "1" 0).lookup "mode" = some (.str "live") ∧
      OnlyMatch fooRegistry (ntStrategyId "Foo" "001") "foo" "live" ∧
      resolveHandle (ntStrategyId "Foo" "001") fooRegistry ≠ "foo" ∧
      some (routeChannel (ntStrategyId "Foo" "001") fooRegistry ⟨1, 2, 3⟩) ≠
        (⟨1, 2, 3⟩ : Channels).ofMode "live" := by
  refine ⟨_, _, rfl, rfl, rfl, rfl, rfl, onlyMatch_foo, by decide, by decide⟩

end TinoHelm

import TinoHelm.Spec.MessageBus

/-! The key a pod writes to is derived from its own file, the glob of the notifier is
fixed. They fit as long as the file says that the pod writes one stream. -/

namespace TinoHelm
open Base

/-- The loop reads a key of Redis that NT does not read itself. -/
def Discovered (key : String) : Prop :=
  ∀ keys skip, key ∈ keys → key ∉ skip → key ∈ discoverEventStreams keys skip

theorem discovered_iff (key : String) :
    Discovered key ↔ matchesGlob key eventStreamGlob = true := by
  simp only [Discovered, discoverEventStreams, List.mem_mergeSort, List.mem_filter,
    Bool.and_eq_true]
  constructor
  · intro h
    exact (h [key] [] (List.mem_singleton.2 rfl) List.not_mem_nil).2.1
  · intro h keys skip hk hs
    exact ⟨hk, h, by simpa using hs⟩

theorem matchesGlob_eventStream (key : String) :
    matchesGlob key eventStreamGlob = true ↔
      ∃ t, key.toList = "trader-".toList ++ t ∧ ":stream".toList <:+ t := by
  have hglob : eventStreamGlob.toList = "trader-".toList ++ '*' :: ":stream".toList := by decide
  rw [matchesGlob, hglob]
  exact globMatch_star_between (by decide) (by decide)

theorem eventStreamKey_matches (traderId : String) :
    matchesGlob (eventStreamKey traderId "stream") eventStreamGlob = true := by
  rw [matchesGlob_eventStream]
  refine ⟨traderId.toList ++ ":stream".toList, ?_, List.suffix_append _ _⟩
  simp [eventStreamKey, List.append_assoc]

theorem suffix_of_colon {a b s : List Char} (ha : ':' ∉ a) (h : (':' :: a) <:+ s)
    (h' : (':' :: b) <:+ s) : (':' :: a) <:+ (':' :: b) := by
  rcases Nat.le_total (':' :: a).length (':' :: b).length with hl | hl
  · exact List.suffix_of_suffix_length_le h h' hl
  · obtain ⟨c, hc⟩ := List.suffix_of_suffix_length_le h' h hl
    cases c with
    | nil => exact hc ▸ List.suffix_refl _
    | cons d c =>
      simp only [List.cons_append, List.cons.injEq] at hc
      exact absurd (by simp [← hc.2]) ha

/-- The key of a topic of its own is found only if the topic itself ends like a stream. -/
theorem topicKey_matches_iff (traderId topic : String) :
    matchesGlob (eventStreamKey traderId "stream" ++ ":" ++ topic) eventStreamGlob = true ↔
      endsWith (":" ++ topic) ":stream" = true := by
  have hkey : (eventStreamKey traderId "stream" ++ ":" ++ topic).toList =
      "trader-".toList ++ (traderId.toList ++ ":stream".toList ++ ':' :: topic.toList) := by
    simp [eventStreamKey, List.append_assoc]
  rw [matchesGlob_eventStream, endsWith_iff, hkey]
  simp only [String.toList_append]
  constructor
  · rintro ⟨t, ht, hs⟩
    obtain rfl := List.append_cancel_left ht
    exact suffix_of_colon (by decide) hs (List.suffix_append _ _)
  · exact fun h => ⟨_, rfl, h.trans (List.suffix_append _ _)⟩

theorem PartOfExample.getOr {raw sec : Value} (h : PartOfExample raw)
    (hsec : messageBusSection raw = .ok sec) (key : String) (default : Value) :
    sec.getOr key default = default ∨
      exampleMessageBus.lookup? key = some (sec.getOr key default) := by
  obtain ⟨sec', hsec', hpart⟩ := h
  obtain rfl : sec' = sec := Except.ok.inj (hsec'.symm.trans hsec)
  unfold Value.getOr
  cases hv : sec'.lookup? key with
  | none => exact Or.inl rfl
  | some v => exact Or.inr (hpart key v hv)

theorem PartOfExample.getOr_absent {raw sec : Value} (h : PartOfExample raw)
    (hsec : messageBusSection raw = .ok sec) {key : String}
    (hk : exampleMessageBus.lookup? key = none) (default : Value) :
    sec.getOr key default = default := by
  rcases h.getOr hsec key default with hd | he
  · exact hd
  · rw [hk] at he
    cases he

theorem busConfig_of_example {env : BusEnv} {raw : Value} {external : Option (List Value)}
    {filterL2Book : Bool} {bus : MessageBusConfig} (h : PartOfExample raw)
    (hbuild : buildMessageBusConfig env raw external filterL2Book = .ok bus) :
    bus.useTraderPrefix = .bool true ∧ bus.useTraderId = .bool true ∧
      bus.useInstanceId = .bool false ∧ bus.streamsPrefix = .str "stream" ∧
      (SetsStreamPerTopic raw → bus.streamPerTopic = .bool false) ∧
      (¬SetsStreamPerTopic raw → bus.streamPerTopic = .bool true) := by
  simp only [buildMessageBusConfig, bind_eq_ok, mapError_eq_ok] at hbuild
  obtain ⟨sec, hsec, db, -, hbuild⟩ := hbuild
  obtain rfl := Except.ok.inj hbuild
  refine ⟨h.getOr_absent hsec (by decide) _, h.getOr_absent hsec (by decide) _,
    h.getOr_absent hsec (by decide) _, ?_, ?_, ?_⟩
  · rcases h.getOr hsec "streams_prefix" (.str "stream") with hd | he
    · exact hd
    · exact (Option.some.inj he).symm
  · rintro ⟨sec', hsec', hset⟩
    obtain rfl : sec' = sec := Except.ok.inj (hsec'.symm.trans hsec)
    obtain ⟨sec'', hsec'', hpart⟩ := h
    obtain rfl : sec'' = sec' := Except.ok.inj (hsec''.symm.trans hsec)
    obtain ⟨v, hv⟩ := Option.isSome_iff_exists.1 hset
    have he := hpart _ _ hv
    change sec''.getOr _ _ = _
    rw [Value.getOr, hv]
    exact (Option.some.inj he).symm
  · intro hset
    have hn : sec.lookup? "stream_per_topic" = none := by
      by_contra hv
      exact hset ⟨sec, hsec, Option.isSome_iff_ne_none.2 hv⟩
    change sec.getOr _ _ = _
    rw [Value.getOr, hn]
    rfl

/-- The notifier finds the stream of an event exactly if the file sets `stream_per_topic`
(the example's value is `false`) or the topic happens to end like the key of a stream. -/
theorem event_stream_discovered_iff {streamKey : MessageBusConfig → String → String → String}
    (hnt : DocumentedLayout streamKey) {env : LoadEnv} {path : String} {raw : Value}
    {file : TinoStrategyFile} (hload : TinoStrategyFile.load env path raw = .ok file)
    (hpart : PartOfExample raw) {busEnv : BusEnv} {external : Option (List Value)}
    {filterL2Book : Bool} {bus : MessageBusConfig}
    (hbuild : buildMessageBusConfig busEnv file.raw external filterL2Book = .ok bus)
    (traderId topic : String) :
    (matchesGlob (streamKey bus traderId topic) eventStreamGlob = true ∧
        Discovered (streamKey bus traderId topic)) ↔
      SetsStreamPerTopic raw ∨ endsWith (":" ++ topic) ":stream" = true := by
  rw [(TinoStrategyFile.load_ok hload).1] at hbuild
  obtain ⟨htp, hti, hii, hsp, hset, hunset⟩ := busConfig_of_example hpart hbuild
  obtain ⟨hone, hmany⟩ := hnt bus traderId topic "stream" htp hti hii hsp
  rw [discovered_iff, and_self]
  by_cases hs : SetsStreamPerTopic raw
  · rw [hone (hset hs)]
    exact iff_of_true (eventStreamKey_matches traderId) (Or.inl hs)
  · rw [hmany (hunset hs), topicKey_matches_iff, or_iff_right hs]

def streamKeyOf (bus : MessageBusConfig) (traderId topic : String) : String :=
  let base := match bus.streamsPrefix with
    | .str streamsPrefix => eventStreamKey traderId streamsPrefix
    | _ => ""
  if bus.streamPerTopic.truthy then base ++ ":" ++ topic else base

theorem streamKeyOf_documented : DocumentedLayout streamKeyOf := by
  intro bus traderId topic streamsPrefix _ _ _ hp
  constructor
  · intro hs
    simp [streamKeyOf, hp, hs, Value.truthy]
  · intro hs
    simp [streamKeyOf, hp, hs, Value.truthy]

def streamFile (messageBus : List (Value × Value)) : Value :=
  .dict [(.str "strategy", .dict [(.str "id", .str "foo"), (.str "class", .str "strategies:Foo")]),
    (.str "message_bus", .dict messageBus)]

theorem partOfExample_nil : PartOfExample (streamFile []) :=
  ⟨.dict [], rfl, fun key v h => by simp [Value.lookup?] at h⟩

/-- A file that leaves out everything but `stream_per_topic = false`. -/
theorem event_stream_discovered_iff_oneStream :
    ∃ bus, matchesGlob (streamKeyOf bus "TINO-001" "events.order.Foo-foo") eventStreamGlob = true ∧
      Discovered (streamKeyOf bus "TINO-001" "events.order.Foo-foo") := by
  have hpart : PartOfExample (streamFile [(.str "stream_per_topic", .bool false)]) := by
    refine ⟨_, rfl, fun key v h => ?_⟩
    by_cases hk : "stream_per_topic" = key
    · subst hk
      exact h
    · simp [Value.lookup?, hk] at h
  have hload : TinoStrategyFile.load ⟨none, none⟩ "foo.toml"
      (streamFile [(.str "stream_per_topic", .bool false)]) = .ok _ := rfl
  exact ⟨_, (@event_stream_discovered_iff _ streamKeyOf_documented _ _ _ _ hload hpart localRedis
    none false _ rfl "TINO-001" "events.order.Foo-foo").2 (Or.inl ⟨_, rfl, rfl⟩)⟩

/-- Without the key the pod writes one stream for each topic, and the glob finds none. -/
theorem default_stream_not_found :
    ∃ file bus, TinoStrategyFile.load ⟨none, none⟩ "foo.toml" (streamFile []) = .ok file ∧
      PartOfExample (streamFile []) ∧
      buildMessageBusConfig localRedis file.raw none false = .ok bus ∧
      streamKeyOf bus "TINO-001" "events.order.Foo-foo" =
        "trader-TINO-001:stream:events.order.Foo-foo" ∧
      matchesGlob (streamKeyOf bus "TINO-001" "events.order.Foo-foo") eventStreamGlob = false ∧
      ¬Discovered (streamKeyOf bus "TINO-001" "events.order.Foo-foo") := by
  have hkey : matchesGlob "trader-TINO-001:stream:events.order.Foo-foo" eventStreamGlob = false := by
    decide
  refine ⟨_, _, rfl, partOfExample_nil, rfl, rfl, hkey, fun h => ?_⟩
  rw [discovered_iff] at h
  exact absurd (h.symm.trans hkey) (by decide)

end TinoHelm

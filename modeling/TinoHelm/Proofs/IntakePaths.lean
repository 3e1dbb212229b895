import TinoHelm.Spec.Intake

/-! The in-process handlers and the stream loop take the same decisions: they run the
same gates on the same tracker, and a forwarded topic has one subscription pattern. -/

namespace TinoHelm
open Base

/-- A message on a forwarded topic, with the registry as it is when it arrives. -/
structure BusMessage where
  topic : String
  payload : Raw
  registry : Registry
  forwarded : shouldForwardTopic topic = true

/-- What is compared: the body and channel `enqueue` was called with, if it was called,
and the tracker afterwards. An exception counts as not forwarded. -/
structure Outcome where
  forwarded : Option (Value × ℤ)
  tracker : Option OrderProgressTracker

def Intake.outcome (i : Intake) : Outcome :=
  ⟨(i.result.toOption.join).map fun r => (r.1.body, r.2), i.tracker⟩

/-- The message bus hands a message to every handler whose pattern matches its topic. -/
def subscriptions (topic : String) : List String :=
  subscribePatterns.filter fun p => matchesGlob topic p

variable (dec : Decoders) (ch : Channels)

def runHandlers (m : BusMessage) :
    List String → Option OrderProgressTracker → List Outcome × Option OrderProgressTracker
  | [], tracker => ([], tracker)
  | pattern :: patterns, tracker =>
    let out := (makeHandler dec pattern m.payload tracker m.registry ch).outcome
    let (rest, tracker) := runHandlers m patterns out.tracker
    (out :: rest, tracker)

def inProcessPath :
    List BusMessage → Option OrderProgressTracker → List Outcome
  | [], _ => []
  | m :: messages, tracker =>
    let (outs, tracker) := runHandlers dec ch m (subscriptions m.topic) tracker
    outs ++ inProcessPath messages tracker

def streamPath : List BusMessage → Option OrderProgressTracker → List Outcome
  | [], _ => []
  | m :: messages, tracker =>
    let fields : StreamEntry := ⟨some m.topic.toByteArray, m.payload⟩
    let out := (forwardStreamEntry dec fields tracker m.registry ch).outcome
    out :: streamPath messages out.tracker

theorem subscribePatterns_perm :
    subscribePatterns.Perm (forwardedTopicPrefixes.map (· ++ "*")) := by decide

theorem star_not_mem : ∀ p ∈ forwardedTopicPrefixes, '*' ∉ p.toList := by decide

theorem prefixes_disjoint :
    ∀ p ∈ forwardedTopicPrefixes, ∀ q ∈ forwardedTopicPrefixes,
      p.toList <+: q.toList → p = q := by decide

theorem mem_subscribePatterns {pattern : String} :
    pattern ∈ subscribePatterns ↔ ∃ p ∈ forwardedTopicPrefixes, p ++ "*" = pattern := by
  rw [subscribePatterns_perm.mem_iff, List.mem_map]

theorem matches_iff_startsWith {topic p : String} (hp : p ∈ forwardedTopicPrefixes) :
    matchesGlob topic (p ++ "*") = true ↔ startsWith topic p = true := by
  rw [matchesGlob_append_star (star_not_mem p hp)]

theorem prefix_unique {topic p q : String} (hp : p ∈ forwardedTopicPrefixes)
    (hq : q ∈ forwardedTopicPrefixes) (h1 : startsWith topic p = true)
    (h2 : startsWith topic q = true) : p = q := by
  rw [startsWith_iff] at h1 h2
  rcases List.prefix_or_prefix_of_prefix h1 h2 with h | h
  · exact prefixes_disjoint p hp q hq h
  · exact (prefixes_disjoint q hq p hp h).symm

theorem shouldForwardTopic_iff (topic : String) :
    shouldForwardTopic topic = true ↔
      ∃ p ∈ forwardedTopicPrefixes, startsWith topic p = true := by
  simp [shouldForwardTopic]

/-- A topic is forwarded exactly when one subscription pattern matches it. -/
theorem shouldForwardTopic_iff_existsUnique (topic : String) :
    shouldForwardTopic topic = true ↔
      ∃! pattern, pattern ∈ subscribePatterns ∧ matchesGlob topic pattern = true := by
  rw [shouldForwardTopic_iff]
  constructor
  · rintro ⟨p, hp, hs⟩
    refine ⟨p ++ "*", ⟨mem_subscribePatterns.2 ⟨p, hp, rfl⟩, (matches_iff_startsWith hp).2 hs⟩, ?_⟩
    rintro pattern ⟨hmem, hm⟩
    obtain ⟨q, hq, rfl⟩ := mem_subscribePatterns.1 hmem
    rw [prefix_unique hq hp ((matches_iff_startsWith hq).1 hm) hs]
  · rintro ⟨pattern, ⟨hmem, hm⟩, -⟩
    obtain ⟨p, hp, rfl⟩ := mem_subscribePatterns.1 hmem
    exact ⟨p, hp, (matches_iff_startsWith hp).1 hm⟩

/-- A forwarded message goes to one handler, that of the prefix of its topic. -/
theorem subscriptions_eq {topic : String} (h : shouldForwardTopic topic = true) :
    ∃ p ∈ forwardedTopicPrefixes, startsWith topic p = true ∧ subscriptions topic = [p ++ "*"] := by
  obtain ⟨p, hp, hs⟩ := (shouldForwardTopic_iff topic).1 h
  refine ⟨p, hp, hs, List.perm_singleton.1 ?_⟩
  have hnodup : subscribePatterns.Nodup := by decide
  rw [subscriptions, List.perm_ext_iff_of_nodup (hnodup.filter _) (List.nodup_singleton _)]
  intro pattern
  rw [List.mem_filter, List.mem_singleton]
  constructor
  · rintro ⟨hmem, hm⟩
    obtain ⟨q, hq, rfl⟩ := mem_subscribePatterns.1 hmem
    rw [prefix_unique hq hp ((matches_iff_startsWith hq).1 hm) hs]
  · rintro rfl
    exact ⟨mem_subscribePatterns.2 ⟨p, hp, rfl⟩, (matches_iff_startsWith hp).2 hs⟩

theorem others_not_tinohelm :
    ∀ p ∈ forwardedTopicPrefixes, p ≠ "tinohelm." → startsWith (p ++ "*") "tinohelm." = false := by
  decide

/-- The pattern tells the `tinohelm.*` topics from the others as the topic does. -/
theorem startsWith_tinohelm {topic p : String} (hp : p ∈ forwardedTopicPrefixes)
    (hs : startsWith topic p = true) :
    startsWith (p ++ "*") "tinohelm." = startsWith topic "tinohelm." := by
  have htino : "tinohelm." ∈ forwardedTopicPrefixes := by decide
  by_cases hpt : p = "tinohelm."
  · rw [hpt] at hs ⊢
    rw [hs]
    decide
  · have ht : ¬startsWith topic "tinohelm." = true := fun h => hpt (prefix_unique hp htino hs h)
    rw [Bool.not_eq_true] at ht
    rw [ht, others_not_tinohelm p hp hpt]

variable {dec ch}

/-- One message: the stream entry and the handler of its topic have the same outcome. -/
theorem makeHandler_outcome {topic p : String} (hp : p ∈ forwardedTopicPrefixes)
    (hs : startsWith topic p = true) (payload : Raw) (tracker : Option OrderProgressTracker)
    (registry : Registry) :
    (makeHandler dec (p ++ "*") payload tracker registry ch).outcome =
      (forwardStreamEntry dec ⟨some topic.toByteArray, payload⟩ tracker registry ch).outcome := by
  have ht : shouldForwardTopic topic = true := (shouldForwardTopic_iff topic).2 ⟨p, hp, hs⟩
  cases hb : parsePayload dec payload with
  | error e => simp [makeHandler, forwardStreamEntry, ht, routeEvent, envelopeFor, hb, Except.map,
      Intake.outcome]
  | ok body =>
    have ho : observed dec ⟨some topic.toByteArray, payload⟩ = some (topic, body) := by
      simp [observed, ht, hb, Except.toOption]
    rw [forwardStreamEntry_observed ho]
    have hscope : (if startsWith (p ++ "*") "tinohelm." = true then ""
        else (extractStrategyIdFromBody body).getD "") = scopeOf topic body := by
      rw [startsWith_tinohelm hp hs, scopeOf]
    simp only [makeHandler, envelopeFor, hb, Except.map, hscope]
    cases feed tracker body with
    | mk tracker err =>
      cases err with
      | some e => rfl
      | none =>
        -- only the gates can raise or drop, and they read the body and the tracker
        dsimp only
        cases componentStatePasses body with
        | false => rfl
        | true =>
          rcases shouldForwardOrderEvent body with e | (_ | _) <;> try rfl
          rcases shouldForwardEventType body with e | (_ | _) <;> try rfl
          rcases shouldForwardFill body tracker with e | (_ | _) <;> rfl

/-- The two intake paths forward the same bodies of a run of messages to the same
channels, one outcome a message, and keep the same tracker all along. -/
theorem intake_paths_agree (dec : Decoders) (ch : Channels) :
    (∀ topic, shouldForwardTopic topic = true ↔
      ∃! pattern, pattern ∈ subscribePatterns ∧ matchesGlob topic pattern = true) ∧
    ∀ (messages : List BusMessage) (tracker : Option OrderProgressTracker),
      inProcessPath dec ch messages tracker = streamPath dec ch messages tracker := by
  refine ⟨shouldForwardTopic_iff_existsUnique, fun messages => ?_⟩
  induction messages with
  | nil => exact fun _ => rfl
  | cons m messages ih =>
    intro tracker
    obtain ⟨p, hp, hs, hsub⟩ := subscriptions_eq m.forwarded
    have hm := @makeHandler_outcome dec ch _ _ hp hs m.payload tracker m.registry
    simp only [inProcessPath, streamPath, hsub, runHandlers, hm, ih, List.singleton_append]

end TinoHelm

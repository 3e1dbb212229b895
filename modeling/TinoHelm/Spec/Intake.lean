import TinoHelm.Base.Json
import TinoHelm.Spec.Gates
import TinoHelm.Spec.Registry

/-! Both intake paths of `notifier/runner.py`, from a raw message to what they hand
to `forwarder.enqueue`: the in-process handlers of `NotifierActor` and
`_forward_stream_entry` of the standalone loop. The reception time of an envelope
is left out, nothing here reads it. -/

namespace TinoHelm
open Base

inductive DecodeFailure where
  | decodeError
  | other (e : PyError)

/-- The msgpack and JSON decoders of `msgspec`. -/
structure Decoders where
  msgpack : ByteArray → Except DecodeFailure Value
  json : ByteArray → Except DecodeFailure Value

def textDecoders : Decoders where
  msgpack _ := .error .decodeError
  json b :=
    match decodeUtf8 b with
    | .error e => .error (.other e)
    | .ok s => ((Json.loads s).map .ok).getD (.error .decodeError)

/-- A payload as a publisher hands it over. An object has its `to_dict` form, if
its class has one that works, and its `str()`. -/
inductive Raw where
  | none
  | dict (kvs : List (Value × Value))
  | str (s : String)
  | bytes (b : ByteArray)
  | object (toDict : Option (List (Value × Value))) (str : String)

/-- `raw.hex()[:200]` -/
def hexPreview (b : ByteArray) : String :=
  String.ofList ((b.toList.flatMap fun x =>
    [hexDigit (x.toNat / 16), hexDigit (x.toNat % 16)]).take 200)

def parsePayload (dec : Decoders) : Raw → Except PyError Value
  | .none => .ok (.str "")
  | .dict kvs => .ok (.dict kvs)
  | .str s =>
    match dec.json s.toByteArray with
    | .ok v => .ok v
    | .error .decodeError | .error (.other .valueError) | .error (.other .unicodeDecodeError) =>
      .ok (.str s)
    | .error (.other e) => .error e
  | .bytes b =>
    match dec.msgpack b with
    | .ok v => .ok v
    | .error (.other e) => .error e
    | .error .decodeError =>
      match dec.json b with
      | .ok v => .ok v
      | .error .decodeError => .ok (.str (hexPreview b))
      | .error (.other e) => .error e
  | .object (some kvs) _ => .ok (.dict kvs)
  | .object Option.none s => .ok (.str s)

structure EventEnvelope where
  topic : String
  body : Value

def envelopeFor (dec : Decoders) (topic : String) (raw : Raw) : Except PyError EventEnvelope :=
  (parsePayload dec raw).map (EventEnvelope.mk topic)

def extractStrategyIdFromBody (body : Value) : Option String :=
  match body.get "strategy_id" with
  | .str sid => if sid = "" then none else some sid
  | _ => none

/-- `tinohelm.*` goes to the logging channel whatever its body says. -/
def scopeOf (topic : String) (body : Value) : String :=
  if startsWith topic "tinohelm." then "" else (extractStrategyIdFromBody body).getD ""

def routeEvent (dec : Decoders) (topic : String) (payload : Raw) (registry : Registry)
    (ch : Channels) : Except PyError (EventEnvelope × ℤ) :=
  (envelopeFor dec topic payload).map fun env =>
    (env, routeChannel (scopeOf topic env.body) registry ch)

/-- What an intake path did with one message: the tracker it leaves, and the
envelope and channel it called `enqueue` with, if it got that far. -/
structure Intake where
  tracker : Option OrderProgressTracker
  result : Except PyError (Option (EventEnvelope × ℤ))

/-- `tracker.observe(body)`, when the forwarder has a tracker. -/
def feed [FloatArith] (tracker : Option OrderProgressTracker) (body : Value) :
    Option OrderProgressTracker × Option PyError :=
  match tracker with
  | none => (none, none)
  | some t => ((t.observe body).1, (t.observe body).2)

structure StreamEntry where
  topic : Option ByteArray
  payload : Raw

section
variable [FloatArith]

/-- `_forward_stream_entry`: route, observe, then the gates in the source's order. -/
def forwardStreamEntry (dec : Decoders) (fields : StreamEntry)
    (tracker : Option OrderProgressTracker) (registry : Registry) (ch : Channels) : Intake :=
  match fields.topic with
  | none => ⟨tracker, .ok none⟩
  | some topicRaw =>
    match decodeUtf8 topicRaw with
    | .error e => ⟨tracker, .error e⟩
    | .ok topic =>
      if !shouldForwardTopic topic then ⟨tracker, .ok none⟩
      else
        match routeEvent dec topic fields.payload registry ch with
        | .error e => ⟨tracker, .error e⟩
        | .ok (env, channelId) =>
          match feed tracker env.body with
          | (tracker, some e) => ⟨tracker, .error e⟩
          | (tracker, none) =>
            if !componentStatePasses env.body then ⟨tracker, .ok none⟩
            else ⟨tracker, do
              if !(← shouldForwardOrderEvent env.body) then return none
              if !(← shouldForwardEventType env.body) then return none
              if !(← shouldForwardFill env.body tracker) then return none
              return some (env, channelId)⟩

/-- The topic and body of an entry that gets past the topic gate and decodes: what
the tracker is fed with. -/
def observed (dec : Decoders) (fields : StreamEntry) : Option (String × Value) := do
  let topic ← (decodeUtf8 (← fields.topic)).toOption
  if shouldForwardTopic topic then
    return (topic, ← (parsePayload dec fields.payload).toOption)
  else none

theorem forwardStreamEntry_observed {dec : Decoders} {fields : StreamEntry} {topic : String}
    {body : Value} (h : observed dec fields = some (topic, body))
    (tracker : Option OrderProgressTracker) (registry : Registry) (ch : Channels) :
    forwardStreamEntry dec fields tracker registry ch =
      match feed tracker body with
      | (tracker, some e) => ⟨tracker, .error e⟩
      | (tracker, none) =>
        if !componentStatePasses body then ⟨tracker, .ok none⟩
        else ⟨tracker, do
          if !(← shouldForwardOrderEvent body) then return none
          if !(← shouldForwardEventType body) then return none
          if !(← shouldForwardFill body tracker) then return none
          return some (⟨topic, body⟩, routeChannel (scopeOf topic body) registry ch)⟩ := by
  unfold observed at h
  unfold forwardStreamEntry
  cases ht : fields.topic with
  | none => simp [ht] at h
  | some raw =>
    cases hd : decodeUtf8 raw with
    | error e => simp [ht, hd, Except.toOption] at h
    | ok t =>
      by_cases hf : shouldForwardTopic t
      · cases hp : parsePayload dec fields.payload with
        | error e => simp [ht, hp, Except.toOption] at h
        | ok v =>
          have heq : (t, v) = (topic, body) := by
            simpa [ht, hd, hf, hp, Except.toOption] using h
          cases heq
          simp [hd, hf, routeEvent, envelopeFor, hp, Except.map]
      · simp [ht, hd, hf, Except.toOption] at h

theorem forwardStreamEntry_not_observed {dec : Decoders} {fields : StreamEntry}
    (h : observed dec fields = none) (tracker : Option OrderProgressTracker)
    (registry : Registry) (ch : Channels) :
    (forwardStreamEntry dec fields tracker registry ch).tracker = tracker := by
  unfold observed at h
  unfold forwardStreamEntry
  cases ht : fields.topic with
  | none => rfl
  | some raw =>
    cases hd : decodeUtf8 raw with
    | error e => simp [hd]
    | ok t =>
      by_cases hf : shouldForwardTopic t
      · cases hp : parsePayload dec fields.payload with
        | error e => simp [hd, hf, routeEvent, envelopeFor, hp, Except.map]
        | ok v => simp [ht, hd, hf, hp, Except.toOption] at h
      · simp [hd, hf]

theorem forwardStreamEntry_tracker {dec : Decoders} {fields : StreamEntry} {topic : String}
    {body : Value} (h : observed dec fields = some (topic, body))
    (tracker : Option OrderProgressTracker) (registry : Registry) (ch : Channels) :
    (forwardStreamEntry dec fields tracker registry ch).tracker = (feed tracker body).1 := by
  rw [forwardStreamEntry_observed h]
  cases hf : feed tracker body with
  | mk t e =>
    cases e with
    | some e => rfl
    | none => dsimp only; split_ifs <;> rfl

theorem observed_of_forwarded {dec : Decoders} {fields : StreamEntry}
    {tracker : Option OrderProgressTracker} {registry : Registry} {ch : Channels}
    {env : EventEnvelope} {channelId : ℤ}
    (h : (forwardStreamEntry dec fields tracker registry ch).result = .ok (some (env, channelId))) :
    observed dec fields = some (env.topic, env.body) ∧ (feed tracker env.body).2 = none := by
  cases ho : observed dec fields with
  | none =>
    unfold forwardStreamEntry at h
    unfold observed at ho
    cases ht : fields.topic with
    | none => simp [ht] at h
    | some raw =>
      cases hd : decodeUtf8 raw with
      | error e => simp [ht, hd] at h
      | ok t =>
        by_cases hf : shouldForwardTopic t
        · cases hp : parsePayload dec fields.payload with
          | error e => simp [ht, hd, hf, routeEvent, envelopeFor, hp, Except.map] at h
          | ok v => simp [ht, hd, hf, hp, Except.toOption] at ho
        · simp [ht, hd, hf] at h
  | some tb =>
    obtain ⟨topic, body⟩ := tb
    rw [forwardStreamEntry_observed ho] at h
    cases hf : feed tracker body with
    | mk t e =>
      cases e with
      | some e => simp [hf] at h
      | none =>
        rw [hf] at h
        dsimp only at h
        split_ifs at h
        · simp at h
        · simp only [gate_eq_ok, pure_eq_ok, Except.ok.injEq, Option.some.injEq, Prod.mk.injEq] at h
          rw [← h.2.2.2.1]
          exact ⟨rfl, congrArg Prod.snd hf⟩

def subscribePatterns : List String :=
  ["events.order.*", "events.position.*", "events.account.*", "data.Signal*", "events.system.*",
    "tinohelm.*"]

/-- The handler `_make_handler(pattern)` returns, without its `try`: it knows the
subscription pattern, not the topic, and routes after the gates. -/
def makeHandler (dec : Decoders) (pattern : String) (msg : Raw)
    (tracker : Option OrderProgressTracker) (registry : Registry) (ch : Channels) : Intake :=
  match envelopeFor dec pattern msg with
  | .error e => ⟨tracker, .error e⟩
  | .ok env =>
    match feed tracker env.body with
    | (tracker, some e) => ⟨tracker, .error e⟩
    | (tracker, none) =>
      if !componentStatePasses env.body then ⟨tracker, .ok none⟩
      else ⟨tracker, do
        if !(← shouldForwardOrderEvent env.body) then return none
        if !(← shouldForwardEventType env.body) then return none
        if !(← shouldForwardFill env.body tracker) then return none
        let strategyId :=
          if startsWith pattern "tinohelm." then ""
          else (extractStrategyIdFromBody env.body).getD ""
        return some (env, routeChannel strategyId registry ch)⟩

end

end TinoHelm

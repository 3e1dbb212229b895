import TinoHelm.Proofs.CommandDelivery

/-! The command grammar of the bridge: which messages it obeys, and which it does not
survive. -/

namespace TinoHelm
open Base

/-- The map that a message is, or is the JSON text of. -/
inductive IsMap (kvs : List (Value × Value)) : Value → Prop
  | map : IsMap kvs (.dict kvs)
  | bytes {b : ByteArray} (h : Json.loadsBytes b = some (.dict kvs)) : IsMap kvs (.bytes b)
  | text {s : String} (h : Json.loads (strip s) = some (.dict kvs)) : IsMap kvs (.str s)

/-- A message that carries the action: under a key of a map, as JSON, or bare. -/
inductive Encodes (a : String) : Value → Prop
  | map {kvs : List (Value × Value)} {message : Value} (hm : IsMap kvs message)
      (ha : (Value.dict kvs).get "action" = .str a) : Encodes a message
  | json {b : ByteArray} (h : Json.loadsBytes b = some (.str a)) : Encodes a (.bytes b)
  | bare {s : String} (h : strip s = a) : Encodes a (.str s)

/-- The call of an action: on the first strategy, or the publish of a report. -/
inductive CallOf (encode : Value → ByteArray) (handle : String) (ids : List String) :
    String → BridgeCall → Prop
  | pause {sid : String} (h : ids.head? = some sid) : CallOf encode handle ids "pause" (.stopStrategy sid)
  | resume {sid : String} (h : ids.head? = some sid) :
      CallOf encode handle ids "resume" (.startStrategy sid)
  | flatten {sid : String} (h : ids.head? = some sid) :
      CallOf encode handle ids "flatten" (.marketExitStrategy sid)
  | report (kind : ReportCommand) {body : Value} (h : ReportBody handle body) :
      CallOf encode handle ids kind.action (.publish kind.reportTopic (encode body))

/-- The handler returned after at most one call, which it made for a known action. -/
def Obeys (encode : Value → ByteArray) (handle : String) (ids : List String) (message : Value)
    (result : Except PyError (BridgeActor × List BridgeCall)) : Prop :=
  ∃ b calls, result = .ok (b, calls) ∧ calls.length ≤ 1 ∧
    (∀ call ∈ calls, ∃ a, CallOf encode handle ids a call) ∧
    ∀ a, (∃ call ∈ calls, CallOf encode handle ids a call) ↔
      Encodes a message ∧ a ∈ actions ∧ a ≠ "ping" ∧ ids ≠ []

def jsonText : Value → Option String
  | .bytes b => Json.decodeBytes b.toList
  | .str s => if startsWith (strip s) "\x7b" then some (strip s) else none
  | _ => none

/-- A message with nothing in it that the handler cannot take: JSON that fits on the
stack, and no list or map for an action. -/
structure Harmless (jsonDepth : ℕ) (message : Value) : Prop where
  shallow : ∀ text, jsonText message = some text →
    Json.deeperThan jsonDepth (Json.skipSpace text.toList) = false
  hashable : ∀ kvs, IsMap kvs message → ∃ key, ((Value.dict kvs).get "action").hash = .ok key

theorem CallOf.action_eq {encode : Value → ByteArray} {handle a a' : String} {ids : List String}
    {call : BridgeCall} (h : CallOf encode handle ids a call)
    (h' : CallOf encode handle ids a' call) : a = a' := by
  cases h with
  | pause => cases h'; rfl
  | resume => cases h'; rfl
  | flatten => cases h'; rfl
  | report kind hb =>
    generalize hc : BridgeCall.publish kind.reportTopic _ = c at h'
    cases h' with
    | report kind' =>
      have htopic := (BridgeCall.publish.inj hc).1
      cases kind <;> cases kind' <;> first | rfl | exact absurd htopic (by decide)
    | _ => cases hc

theorem skipSpace_strip (s : String) : Json.skipSpace (strip s).toList = (strip s).toList := by
  cases h : (strip s).toList with
  | nil => rfl
  | cons c r =>
    have hw := strip_head h
    rw [Json.skipSpace, List.dropWhile_cons_of_neg]
    -- the white space of JSON is among what `strip` takes off
    simp only [Bool.or_eq_true, decide_eq_true_eq]
    rintro (((rfl | rfl) | rfl) | rfl) <;> exact absurd hw (by decide)

theorem startsWith_brace {s : String} : startsWith s "\x7b" = true ↔ ∃ t, s.toList = '{' :: t := by
  have hbrace : "\x7b".toList = ['{'] := rfl
  rw [startsWith, hbrace, List.isPrefixOf_iff_prefix]
  constructor
  · rintro ⟨t, ht⟩
    exact ⟨t, ht.symm⟩
  · rintro ⟨t, ht⟩
    exact ⟨t, ht.symm⟩

theorem startsWith_of_loads {s : String} {kvs : List (Value × Value)}
    (h : Json.loads (strip s) = some (.dict kvs)) : startsWith (strip s) "\x7b" = true := by
  obtain ⟨t, ht⟩ := Json.loads_dict h
  rw [skipSpace_strip] at ht
  exact startsWith_brace.2 ⟨t, ht⟩

theorem actions_plain : ∀ a ∈ actions, startsWith a "\x7b" = false := by decide

structure Extracted (message v : Value) : Prop where
  encodes : ∀ a ∈ actions, v = .str a ↔ Encodes a message
  map : ∀ kvs, IsMap kvs message → v = (Value.dict kvs).get "action"
  hash : (∃ kvs, IsMap kvs message) ∨ ∃ key, v.hash = .ok key

/-- A message that is no action itself holds one in its map at most. -/
theorem extracted_of {message v : Value}
    (hmap : ∀ kvs, IsMap kvs message → v = (Value.dict kvs).get "action")
    (hv : (∃ kvs, IsMap kvs message) ∨ v = .none)
    (hjson : ∀ b s, message = .bytes b → Json.loadsBytes b ≠ some (.str s))
    (hbare : ∀ s, message = .str s → startsWith (strip s) "\x7b" = true) :
    Extracted message v := by
  refine ⟨fun a ha => ⟨fun he => ?_, fun he => ?_⟩, hmap, ?_⟩
  · rcases hv with ⟨kvs, hm⟩ | hnone
    · exact .map hm (hmap kvs hm ▸ he)
    · rw [hnone] at he
      cases he
  · cases he with
    | map hm hget => rw [hmap _ hm, hget]
    | json hl => exact absurd hl (hjson _ _ rfl)
    | bare hs =>
      have hplain := actions_plain a ha
      rw [← hs, hbare _ rfl] at hplain
      cases hplain
  · refine hv.imp_right fun hnone => ?_
    rw [hnone]
    exact ⟨_, rfl⟩

theorem extracted_str {message : Value} {s : String} (hmap : ∀ kvs, ¬ IsMap kvs message)
    (hs : ∀ a, Encodes a message ↔ s = a) : Extracted message (.str s) where
  encodes a _ := by rw [hs, Value.str.injEq]
  map kvs hm := absurd hm (hmap kvs)
  hash := Or.inr ⟨_, Value.hash_str s⟩

namespace BridgeActor

theorem extractAction_bytes {jsonDepth : ℕ} {b : ByteArray}
    (h : Json.loadsBytesWithin jsonDepth b = .ok (Json.loadsBytes b)) :
    ∃ v, extractAction jsonDepth (.bytes b) = .ok v ∧ Extracted (.bytes b) v := by
  have hmap : ∀ kvs, IsMap kvs (.bytes b) ↔ Json.loadsBytes b = some (.dict kvs) :=
    fun kvs => ⟨fun h => by cases h; assumption, .bytes⟩
  have hbare : ∀ s, Value.bytes b = .str s → startsWith (strip s) "\x7b" = true :=
    fun s h => by cases h
  rw [extractAction, h, ok_bind]
  split
  · rename_i kvs hl
    refine ⟨_, rfl, extracted_of (fun kvs' hm => ?_) (Or.inl ⟨kvs, .bytes hl⟩) (fun b' s hb => ?_)
      hbare⟩
    · rw [hmap, hl] at hm
      rw [Value.dict.inj (Option.some.inj hm)]
    · cases hb
      simp [hl]
  · rename_i s hl
    refine ⟨_, rfl, extracted_str (fun kvs hm => ?_) fun a => ⟨fun he => ?_, fun he => ?_⟩⟩
    · rw [hmap, hl] at hm
      cases hm
    · cases he with
      | map hm =>
        rw [hmap, hl] at hm
        cases hm
      | json h => exact Value.str.inj (Option.some.inj (hl.symm.trans h))
    · exact .json (he ▸ hl)
  · rename_i hdict hstr
    refine ⟨_, rfl, extracted_of (fun kvs hm => ?_) (Or.inr rfl) (fun b' s hb => ?_) hbare⟩
    · exact absurd ((hmap kvs).1 hm) (hdict kvs)
    · cases hb
      exact hstr s

theorem extractAction_object {jsonDepth : ℕ} {s : String}
    (hs : startsWith (strip s) "\x7b" = true)
    (h : Json.loadsWithin jsonDepth (strip s) = .ok (Json.loads (strip s))) :
    ∃ v, extractAction jsonDepth (.str s) = .ok v ∧ Extracted (.str s) v := by
  have hmap : ∀ kvs, IsMap kvs (.str s) ↔ Json.loads (strip s) = some (.dict kvs) :=
    fun kvs => ⟨fun h => by cases h; assumption, .text⟩
  have hjson : ∀ b t, Value.str s = .bytes b → Json.loadsBytes b ≠ some (.str t) :=
    fun b t h => by cases h
  have hbare : ∀ t, Value.str s = .str t → startsWith (strip t) "\x7b" = true :=
    fun t h => Value.str.inj h ▸ hs
  rw [extractAction, if_pos hs, h, ok_bind]
  split
  · rename_i hl
    refine ⟨_, rfl, extracted_of (fun kvs hm => ?_) (Or.inr rfl) hjson hbare⟩
    rw [hmap, hl] at hm
    cases hm
  · rename_i kvs hl
    refine ⟨_, rfl, extracted_of (fun kvs' hm => ?_) (Or.inl ⟨kvs, .text hl⟩) hjson hbare⟩
    rw [hmap, hl] at hm
    rw [Value.dict.inj (Option.some.inj hm)]
  · rename_i v hdict hl
    obtain ⟨t, ht⟩ := startsWith_brace.1 hs
    obtain ⟨kvs, rfl⟩ := Json.loads_brace ht hl
    exact absurd rfl (hdict kvs)

theorem extractAction_bare {s : String} (hs : startsWith (strip s) "\x7b" = false)
    (jsonDepth : ℕ) : ∃ v, extractAction jsonDepth (.str s) = .ok v ∧ Extracted (.str s) v := by
  have hmap : ∀ kvs, ¬ IsMap kvs (.str s) := by
    intro kvs hm
    cases hm with
    | text h =>
      rw [startsWith_of_loads h] at hs
      cases hs
  rw [extractAction, if_neg (by rw [hs]; exact Bool.false_ne_true)]
  refine ⟨_, rfl, extracted_str hmap fun a => ⟨fun he => ?_, .bare⟩⟩
  cases he with
  | map hm => exact absurd hm (hmap _)
  | bare h => exact h

theorem extractAction_shallow {jsonDepth : ℕ} {message : Value}
    (h : ∀ text, jsonText message = some text →
      Json.deeperThan jsonDepth (Json.skipSpace text.toList) = false) :
    ∃ v, extractAction jsonDepth message = .ok v ∧ Extracted message v := by
  have hwithin : ∀ text, jsonText message = some text →
      Json.loadsWithin jsonDepth text = .ok (Json.loads text) := by
    intro text ht
    rw [Json.loadsWithin, h text ht]
    rfl
  cases message with
  | dict kvs =>
    refine ⟨_, rfl, extracted_of (fun kvs' hm => ?_) (Or.inl ⟨kvs, .map⟩) (fun b s hb => ?_)
      fun s hs => ?_⟩
    · cases hm
      rfl
    · cases hb
    · cases hs
  | bytes b =>
    refine extractAction_bytes ?_
    unfold Json.loadsBytesWithin Json.loadsBytes
    cases hd : Json.decodeBytes b.toList with
    | none => rfl
    | some text => exact hwithin text hd
  | str s =>
    cases hs : startsWith (strip s) "\x7b" with
    | false => exact extractAction_bare hs jsonDepth
    | true => exact extractAction_object hs (hwithin (strip s) (if_pos hs))
  | _ =>
    refine ⟨_, rfl, extracted_of (fun kvs hm => ?_) (Or.inr rfl) (fun b s hb => ?_) fun s hs => ?_⟩
    · cases hm
    · cases hb
    · cases hs

theorem extractAction_deep {jsonDepth : ℕ} {message : Value} {text : String}
    (ht : jsonText message = some text)
    (h : Json.deeperThan jsonDepth (Json.skipSpace text.toList) = true) :
    extractAction jsonDepth message = .error .recursionError := by
  have hwithin : Json.loadsWithin jsonDepth text = .error .recursionError := if_pos h
  cases message with
  | bytes b =>
    have hd : Json.decodeBytes b.toList = some text := ht
    rw [extractAction, Json.loadsBytesWithin, hd]
    dsimp only
    rw [hwithin, error_bind]
  | str s =>
    simp only [jsonText] at ht
    split_ifs at ht with hs
    obtain rfl := Option.some.inj ht
    rw [extractAction, if_pos hs, hwithin, error_bind]
  | _ => cases ht

/-! What the handler makes of the value it extracted. -/

def outcome (encode : Value → ByteArray) (rt : NtRuntime) (b : BridgeActor) :
    Value → BridgeActor × List BridgeCall
  | .str a =>
    if a ∈ actions ∧ a ≠ "ping" then
      ((b.resolveStrategyId rt).2, match (b.resolveStrategyId rt).1 with
        | none => []
        | some sid => dispatch encode rt (b.resolveStrategyId rt).2 a sid)
    else (b, [])
  | _ => (b, [])

theorem onCommand_extracted (encode : Value → ByteArray) (rt : NtRuntime) (b : BridgeActor)
    {message v : Value} (h : extractAction rt.jsonDepth message = .ok v) :
    b.onCommand encode rt message = v.hash.map fun _ => b.outcome encode rt v := by
  rw [onCommand, h, ok_bind]
  cases v with
  | str a =>
    by_cases ha : a ∈ actions
    · by_cases hp : a = "ping"
      · simp [hp, Except.map, outcome]
      · rcases hr : b.resolveStrategyId rt with ⟨_ | sid, b'⟩ <;>
          simp [ha, hp, hr, Except.map, outcome]
    · simp [ha, Except.map, outcome]
  | _ => rfl

/-- A bridge of the pod: the strategy it may have cached is the first one loaded. -/
structure Serves (handle : String) (ids : List String) (b : BridgeActor) : Prop where
  handle : b.controlHandle = handle
  cached : b.strategyId = none ∨ b.strategyId = ids.head?

variable {handle : String} {ids : List String} {b : BridgeActor}

theorem Serves.keeps (rt : NtRuntime) {b' : BridgeActor} (h : Serves handle rt.strategyIds b)
    (hk : Keeps rt b b') : Serves handle rt.strategyIds b' := by
  refine ⟨hk.same.1.trans h.handle, ?_⟩
  rcases hk with rfl | ⟨-, sid, hsid, rfl⟩
  · exact h.cached
  · exact Or.inr hsid.symm

theorem Serves.resolve {rt : NtRuntime} (h : Serves handle rt.strategyIds b) :
    (b.resolveStrategyId rt).1 = rt.strategyIds.head? := by
  unfold resolveStrategyId
  rcases h.cached with hn | hs
  · rw [hn]
    cases rt.strategyIds <;> rfl
  · cases hi : rt.strategyIds with
    | nil =>
      rw [hs, hi]
      rfl
    | cons sid ids =>
      rw [hs, hi]
      rfl

theorem dispatch_callOf (encode : Value → ByteArray) (rt : NtRuntime) {a sid : String}
    (ha : a ∈ actions) (hp : a ≠ "ping") (hs : ids.head? = some sid) (hb : b.controlHandle = handle) :
    ∃ call, dispatch encode rt b a sid = [call] ∧ CallOf encode handle ids a call := by
  have hreport : ∀ kind : ReportCommand, ∃ call,
      dispatch encode rt b kind.action sid = [call] ∧ CallOf encode handle ids kind.action call := by
    intro kind
    obtain ⟨body, hbody, hcalls⟩ := b.dispatch_report encode rt kind sid
    exact ⟨_, hcalls, .report kind (hb ▸ hbody)⟩
  simp only [actions, List.mem_cons, List.not_mem_nil, or_false] at ha
  rcases ha with rfl | rfl | rfl | rfl | rfl | rfl | rfl
  · exact ⟨_, rfl, .pause hs⟩
  · exact ⟨_, rfl, .resume hs⟩
  · exact ⟨_, rfl, .flatten hs⟩
  · exact absurd rfl hp
  · exact hreport .positions
  · exact hreport .fills
  · exact hreport .orders

theorem obeys_outcome (encode : Value → ByteArray) {rt : NtRuntime} {message v : Value}
    (h : Extracted message v) (hb : Serves handle rt.strategyIds b) :
    Obeys encode handle rt.strategyIds message (.ok (b.outcome encode rt v)) := by
  by_cases hact : ∃ a, v = .str a ∧ a ∈ actions ∧ a ≠ "ping" ∧ rt.strategyIds ≠ []
  · obtain ⟨a, rfl, ha, hp, hids⟩ := hact
    obtain ⟨sid, hsid⟩ : ∃ sid, rt.strategyIds.head? = some sid := by
      cases hi : rt.strategyIds with
      | nil => exact absurd hi hids
      | cons sid ids => exact ⟨sid, rfl⟩
    obtain ⟨call, hcall, hof⟩ := dispatch_callOf encode rt ha hp hsid
      (hb.keeps rt (b.keeps_resolve rt)).handle
    refine ⟨(b.resolveStrategyId rt).2, [call], ?_, le_refl 1, ?_, fun a' => ⟨?_, ?_⟩⟩
    · rw [outcome, if_pos ⟨ha, hp⟩, hb.resolve, hsid]
      dsimp only
      rw [hcall]
    · exact fun c hc => ⟨a, List.mem_singleton.1 hc ▸ hof⟩
    · rintro ⟨c, hc, hof'⟩
      rw [List.mem_singleton.1 hc] at hof'
      obtain rfl := hof.action_eq hof'
      exact ⟨(h.encodes a ha).1 rfl, ha, hp, hids⟩
    · rintro ⟨he, ha', -, -⟩
      rw [Value.str.inj ((h.encodes a' ha').2 he)] at hof
      exact ⟨call, List.mem_singleton_self call, hof⟩
  · have hnone : (b.outcome encode rt v).2 = [] := by
      cases v with
      | str a =>
        rw [outcome]
        split_ifs with ha
        · have hids : rt.strategyIds = [] := by
            by_contra hids
            exact hact ⟨a, rfl, ha.1, ha.2, hids⟩
          rw [hb.resolve, hids]
          rfl
        · rfl
      | _ => rfl
    refine ⟨_, [], by rw [← hnone], Nat.zero_le 1, by simp, fun a => ⟨by simp, ?_⟩⟩
    rintro ⟨he, ha, hp, hids⟩
    exact absurd ⟨a, (h.encodes a ha).2 he, ha, hp, hids⟩ hact

end BridgeActor

/-- The bridge of a pod behind earlier messages. What raises leaves it as it was. -/
def bridgeAfter (encode : Value → ByteArray) (ids : List String) (b : BridgeActor)
    (earlier : List (NtRuntime × Value)) : BridgeActor :=
  run (fun b m => match b.onCommand encode { m.1 with strategyIds := ids } m.2 with
    | .ok r => r.1
    | .error _ => b) b earlier

theorem serves_bridgeAfter (encode : Value → ByteArray) (config : BridgeActorConfig)
    (ids : List String) (earlier : List (NtRuntime × Value)) :
    BridgeActor.Serves config.strategyId ids (bridgeAfter encode ids (.init config) earlier) := by
  refine run_invariant (I := BridgeActor.Serves config.strategyId ids) ⟨rfl, Or.inl rfl⟩
    (fun b m h => ?_) earlier
  split
  · rename_i r hr
    exact BridgeActor.Serves.keeps { m.1 with strategyIds := ids } h
      (BridgeActor.keeps_onCommand hr)
  · exact h

/-- The bridge of a pod, whatever it was sent before, obeys a message that encodes a known
action and drops every other, exactly when the message is harmless. -/
theorem obeys_command_iff (encode : Value → ByteArray) (config : BridgeActorConfig)
    (ids : List String) (earlier : List (NtRuntime × Value)) (rt : NtRuntime) (message : Value) :
    Obeys encode config.strategyId ids message
        ((bridgeAfter encode ids (.init config) earlier).onCommand encode
          { rt with strategyIds := ids } message) ↔
      Harmless rt.jsonDepth message := by
  have hserves := serves_bridgeAfter encode config ids earlier
  generalize bridgeAfter encode ids (.init config) earlier = b at hserves
  constructor
  · rintro ⟨b', calls, hok, -⟩
    have hshallow : ∀ text, jsonText message = some text →
        Json.deeperThan rt.jsonDepth (Json.skipSpace text.toList) = false := by
      intro text ht
      by_contra hdeep
      rw [BridgeActor.onCommand, BridgeActor.extractAction_deep ht (by simpa using hdeep)] at hok
      cases hok
    refine ⟨hshallow, fun kvs hm => ?_⟩
    obtain ⟨v, hv, he⟩ := BridgeActor.extractAction_shallow hshallow
    rw [b.onCommand_extracted encode { rt with strategyIds := ids } hv] at hok
    rw [← he.map kvs hm]
    cases hhash : v.hash with
    | error e =>
      rw [hhash] at hok
      cases hok
    | ok key => exact ⟨key, rfl⟩
  · intro h
    obtain ⟨v, hv, he⟩ := BridgeActor.extractAction_shallow h.shallow
    obtain ⟨key, hkey⟩ : ∃ key, v.hash = .ok key := by
      rcases he.hash with ⟨kvs, hm⟩ | hhash
      · rw [he.map kvs hm]
        exact h.hashable kvs hm
      · exact hhash
    rw [b.onCommand_extracted encode { rt with strategyIds := ids } hv, hkey]
    exact BridgeActor.obeys_outcome encode he hserves

/-- A list for an action raises. -/
theorem unhashable_action_raises :
    let rt : NtRuntime := ⟨["Foo-h"], none, none, none,
      ⟨fun _ => .ok [], fun _ => .ok [], fun _ => .ok []⟩, .ok [], 1000⟩
    let bridge := BridgeActor.init ⟨"h", "commands.tinohelm.h", "live", false⟩
    let message := Value.dict [(.str "action", .list [])]
    ¬ Obeys fixMap "h" ["Foo-h"] message (bridge.onCommand fixMap rt message) := by
  intro rt bridge message h
  obtain ⟨b, calls, hok, -⟩ := h
  cases hok

end TinoHelm

import TinoHelm.Proofs.ReportCorrelation
import TinoHelm.Spec.Bridge

/-! From a publisher to the pod and back: the entry of a command is read by one pod, whose
bridge makes the call of the action, and its report resolves who waits for that pod. -/

namespace TinoHelm
open Base

theorem controlStreamKey_inj {a b : String} (h : controlStreamKey a = controlStreamKey b) :
    a = b := by
  have hl : ("tinohelm:control:" ++ a).toList = ("tinohelm:control:" ++ b).toList :=
    congrArg String.toList h
  rw [String.toList_append, String.toList_append] at hl
  exact String.toList_inj.1 (List.append_cancel_left hl)

theorem countP_withControlStream {streams : List Value} {strategyId : String}
    (h : streams.countP (·.isStr (controlStreamKey strategyId)) ≤ 1) :
    (withControlStream streams strategyId).countP (·.isStr (controlStreamKey strategyId)) = 1 := by
  unfold withControlStream
  dsimp only
  split_ifs with hany
  · have hpos := List.countP_pos_iff.2 (List.any_eq_true.1 hany)
    omega
  · have hzero : streams.countP (·.isStr (controlStreamKey strategyId)) = 0 := by
      rw [List.countP_eq_zero]
      exact fun v hv hs => hany (List.any_eq_true.2 ⟨v, hv, hs⟩)
    rw [List.countP_append, hzero]
    simp

theorem countP_withControlStream_ne {streams : List Value} {strategyId other : String}
    (h : other ≠ strategyId) :
    (withControlStream streams strategyId).countP (·.isStr (controlStreamKey other)) =
      streams.countP (·.isStr (controlStreamKey other)) := by
  unfold withControlStream
  dsimp only
  split_ifs
  · rfl
  · have hne : controlStreamKey strategyId ≠ controlStreamKey other :=
      fun he => h (controlStreamKey_inj he).symm
    simp [List.countP_append, hne]

/-- The pod was assembled from an accepted file, whose `external_streams` list its own
control stream at most once and that of no other handle. -/
def Assembled (handles : List String) (p : StrategyPod) : Prop :=
  ∃ loadEnv path raw file busEnv config user,
    TinoStrategyFile.load loadEnv path raw = .ok file ∧
    buildTradingNodeConfig busEnv file = .ok config ∧ p = StrategyPod.start config ∧
    userStreams file.raw = .ok user ∧
    user.countP (·.isStr (controlStreamKey file.strategyId)) ≤ 1 ∧
    ∀ h ∈ handles, h ≠ file.strategyId → user.countP (·.isStr (controlStreamKey h)) = 0

/-- The pod reads its own control stream once and no other, and subscribes to its commands. -/
structure Listens (handles : List String) (p : StrategyPod) : Prop where
  nonempty : p.handle ≠ ""
  own : p.listings (controlStreamKey p.handle) = 1
  other : ∀ h ∈ handles, h ≠ p.handle → p.listings (controlStreamKey h) = 0
  pattern : p.bridge.pattern = commandTopicPrefix ++ "." ++ p.handle ++ "." ++ "*"

theorem buildTradingNodeConfig_ok {env : BusEnv} {file : TinoStrategyFile}
    {config : TradingNodeConfig} {user : List Value}
    (h : buildTradingNodeConfig env file = .ok config) (hu : userStreams file.raw = .ok user) :
    config.messageBus.streams = withControlStream user file.strategyId ∧
      config.controller.config.strategyId = file.strategyId ∧
      config.controller.config.commandTopic = file.commandTopic := by
  simp only [buildTradingNodeConfig, buildMessageBusConfig, buildControllerImport, bind_eq_ok,
    mapError_eq_ok, hu] at h
  obtain ⟨streams, hs, filterL2Book, -, bus, ⟨sec, -, db, -, hbus⟩, controller, ⟨persist, -, hc⟩,
    h⟩ := h
  obtain rfl := Except.ok.inj hs
  obtain rfl := Except.ok.inj h
  obtain rfl := Except.ok.inj hbus
  obtain rfl := Except.ok.inj hc
  exact ⟨rfl, rfl, rfl⟩

theorem Assembled.listens {handles : List String} {p : StrategyPod} (h : Assembled handles p) :
    Listens handles p := by
  obtain ⟨loadEnv, path, raw, file, busEnv, config, user, hload, hbuild, rfl, hu, hown, hother⟩ := h
  obtain ⟨-, hne, -, htopic⟩ := TinoStrategyFile.load_ok hload
  obtain ⟨hstreams, hid, hcommand⟩ := buildTradingNodeConfig_ok hbuild hu
  have hhandle : (StrategyPod.start config).handle = file.strategyId := hid
  have hlist : ∀ key, (StrategyPod.start config).listings key =
      (withControlStream user file.strategyId).countP (·.isStr key) := by
    intro key
    rw [StrategyPod.listings, StrategyPod.start, hstreams]
  refine ⟨hhandle ▸ hne, ?_, fun h hh hn => ?_, ?_⟩
  · rw [hlist, hhandle, countP_withControlStream hown]
  · rw [hhandle] at hn
    rw [hlist, countP_withControlStream_ne hn, hother h hh hn]
  · rw [hhandle]
    change config.controller.config.commandTopic ++ ".*" = _
    rw [hcommand, htopic]
    apply String.toList_inj.1
    simp [commandTopicPrefix, String.toList_append, List.append_assoc]

theorem Assembled.uncached {handles : List String} {p : StrategyPod} (h : Assembled handles p) :
    p.bridge.strategyId = none := by
  obtain ⟨-, -, -, -, -, config, -, -, -, rfl, -⟩ := h
  rfl

/-! What a message does to the bridge: at most, the id of the strategy is resolved. -/

namespace BridgeActor

variable {encode : Value → ByteArray} {rt : NtRuntime} {b b' b'' : BridgeActor}

/-- The bridge is as before, or has cached the id of the first loaded strategy. -/
def Keeps (rt : NtRuntime) (b b' : BridgeActor) : Prop :=
  b' = b ∨ b.strategyId = none ∧ ∃ sid, rt.strategyIds.head? = some sid ∧
    b' = { b with strategyId := some sid }

theorem Keeps.trans (h : Keeps rt b b') (h' : Keeps rt b' b'') : Keeps rt b b'' := by
  rcases h with rfl | ⟨hn, sid, hsid, rfl⟩
  · exact h'
  · rcases h' with rfl | ⟨hn', -⟩
    · exact Or.inr ⟨hn, sid, hsid, rfl⟩
    · cases hn'

theorem Keeps.same (h : Keeps rt b b') :
    b'.controlHandle = b.controlHandle ∧ b'.pattern = b.pattern := by
  rcases h with rfl | ⟨-, sid, -, rfl⟩
  · exact ⟨rfl, rfl⟩
  · exact ⟨rfl, rfl⟩

theorem keeps_resolve (rt : NtRuntime) (b : BridgeActor) :
    Keeps rt b (b.resolveStrategyId rt).2 := by
  unfold resolveStrategyId
  cases hs : b.strategyId with
  | some sid => exact Or.inl rfl
  | none =>
    cases hi : rt.strategyIds with
    | nil => exact Or.inl rfl
    | cons sid ids => exact Or.inr ⟨hs, sid, by rw [hi]; rfl, rfl⟩

/-- The id comes from the trader, now or when it was cached. -/
theorem resolve_loaded (h : rt.strategyIds ≠ []) (b : BridgeActor) :
    ∃ sid, (b.resolveStrategyId rt).1 = some sid ∧
      (b.strategyId = some sid ∨ rt.strategyIds.head? = some sid) := by
  unfold resolveStrategyId
  cases hs : b.strategyId with
  | some sid => exact ⟨sid, rfl, Or.inl rfl⟩
  | none =>
    cases hi : rt.strategyIds with
    | nil => exact absurd hi h
    | cons sid ids => exact ⟨sid, rfl, Or.inr rfl⟩

theorem keeps_onCommand {message : Value} {calls : List BridgeCall}
    (h : b.onCommand encode rt message = .ok (b', calls)) : Keeps rt b b' := by
  have hsame : Keeps rt b b := Or.inl rfl
  obtain ⟨action, -, h⟩ := bind_eq_ok.1 h
  split at h
  · cases h
    exact hsame
  · obtain ⟨known, -, h⟩ := bind_eq_ok.1 h
    split at h
    · cases h
      exact hsame
    · split at h
      · split_ifs at h with hping
        · cases h
          exact hsame
        · have hk := keeps_resolve rt b
          split at h
          · rename_i hr
            rw [hr] at hk
            cases h
            exact hk
          · rename_i hr
            rw [hr] at hk
            cases h
            exact hk
      · cases h
        exact hsame

/-- A known action that is no ping goes on to the resolved id. -/
theorem onCommand_body (encode : Value → ByteArray) {e : ControlEntry} (ha : e.action ∈ actions)
    (ts : ℤ) (rt : NtRuntime) (b : BridgeActor) :
    b.onCommand encode rt (e.body ts) =
      if e.action = "ping" then .ok (b, [])
      else .ok ((b.resolveStrategyId rt).2, match (b.resolveStrategyId rt).1 with
        | none => []
        | some sid => dispatch encode rt (b.resolveStrategyId rt).2 e.action sid) := by
  have hextract : extractAction rt.jsonDepth (e.body ts) = .ok (.str e.action) := rfl
  have hknown : (Value.str e.action).inNames actions = .ok true := by simpa using ha
  rw [onCommand, hextract]
  simp only [hknown, ok_bind, Bool.not_true, Bool.false_eq_true, if_false]
  split_ifs with hp
  · rfl
  · rcases hr : b.resolveStrategyId rt with ⟨_ | sid, b'⟩
    · rfl
    · rfl

/-- Each report goes out under the topic its command waits on, tagged with the handle. -/
theorem dispatch_report (encode : Value → ByteArray) (rt : NtRuntime) (b : BridgeActor)
    (kind : ReportCommand) (sid : String) :
    ∃ body, ReportBody b.controlHandle body ∧
      dispatch encode rt b kind.action sid = [.publish kind.reportTopic (encode body)] := by
  cases kind with
  | positions | pnl => exact ⟨_, reportBody_positions _ _ _ _, rfl⟩
  | fills => exact ⟨_, reportBody_history rt.fills _, rfl⟩
  | orders => exact ⟨_, reportBody_history rt.orders _, rfl⟩

end BridgeActor

namespace StrategyPod

variable {nt : NtBus} {encode : Value → ByteArray} {p : StrategyPod} {c : Command}

open BridgeActor

theorem keeps_replay (nt : NtBus) (encode : Value → ByteArray) (rt : NtRuntime) (topic : String)
    (payload : ByteArray) (b : BridgeActor) :
    Keeps rt b (replay nt encode rt topic payload b).1 := by
  unfold replay
  cases nt.deserialize payload with
  | error e => exact Or.inl rfl
  | ok msg =>
    dsimp only
    split_ifs
    · cases hr : b.onCommand encode rt msg with
      | error e => exact Or.inl rfl
      | ok r => exact keeps_onCommand hr
    · exact Or.inl rfl

theorem keeps_replayAll (nt : NtBus) (encode : Value → ByteArray) (rt : NtRuntime) (topic : String)
    (payload : ByteArray) (n : ℕ) (b : BridgeActor) :
    Keeps rt b (replayAll nt encode rt topic payload n b).1 := by
  induction n generalizing b with
  | zero => exact Or.inl rfl
  | succ n ih => exact (keeps_replay nt encode rt topic payload b).trans (ih _)

/-- A command leaves the streams of a pod, and of its bridge all but the cached id. -/
theorem keeps_obey (nt : NtBus) (encode : Value → ByteArray) (p : StrategyPod) (c : Command) :
    (p.obey nt encode c).1.streams = p.streams ∧
      Keeps (c.runtime p.handle) p.bridge (p.obey nt encode c).1.bridge :=
  ⟨rfl, keeps_replayAll ..⟩

theorem handle_obey (nt : NtBus) (encode : Value → ByteArray) (p : StrategyPod) (c : Command) :
    (p.obey nt encode c).1.handle = p.handle :=
  (keeps_obey nt encode p c).2.same.1

theorem listens_obey {handles : List String} (h : Listens handles p) (nt : NtBus)
    (encode : Value → ByteArray) (c : Command) : Listens handles (p.obey nt encode c).1 := by
  have hhandle := handle_obey nt encode p c
  have hpattern := (keeps_obey nt encode p c).2.same.2
  refine ⟨?_, ?_, fun other ho hn => ?_, ?_⟩
  · rw [hhandle]
    exact h.nonempty
  · rw [hhandle]
    exact h.own
  · rw [hhandle] at hn
    exact h.other other ho hn
  · rw [hhandle, hpattern, h.pattern]

/-- A pod that does not read the stream notices nothing. -/
theorem obey_of_unlisted (h : p.listings c.entry.key = 0) (nt : NtBus)
    (encode : Value → ByteArray) : p.obey nt encode c = (p, []) := by
  rw [obey, receive, h]
  rfl

/-- A pod that reads it once and matches the topic hands the body to its bridge. -/
theorem obey_of_listed (h : p.listings c.entry.key = 1)
    (hm : nt.isMatching c.entry.topic p.bridge.pattern = true)
    (hround : nt.deserialize (encode (c.entry.body c.ts)) = .ok (c.entry.body c.ts))
    {r : BridgeActor × List BridgeCall}
    (hr : p.bridge.onCommand encode (c.runtime p.handle) (c.entry.body c.ts) = .ok r) :
    (p.obey nt encode c).2 = r.2 := by
  rw [obey, receive, h]
  simp only [replayAll, replay, hround, hm, hr, if_true, List.append_nil]

end StrategyPod

theorem topic_matches {nt : NtBus} (hnt : DocumentedWildcards nt.isMatching) {handles : List String}
    {p : StrategyPod} (h : Listens handles p) {c : Command} (hc : c.strategy = p.handle) :
    nt.isMatching c.entry.topic p.bridge.pattern = true := by
  have htopic : c.entry.topic = commandTopicPrefix ++ "." ++ p.handle ++ "." ++ c.action := by
    rw [Command.entry, ← hc]
    cases c.writer <;> rfl
  rw [hnt, h.pattern, htopic]
  generalize commandTopicPrefix ++ "." ++ p.handle ++ "." = start
  rw [String.toList_append, String.toList_append]
  exact wildcardMatch_append_star _ _

theorem Command.entry_key (c : Command) : c.entry.key = controlStreamKey c.strategy := by
  rw [entry]
  cases c.writer <;> rfl

theorem Command.entry_action (c : Command) : c.entry.action = c.action := by
  rw [entry]
  cases c.writer <;> rfl

/-! Runs of commands over a set of pods. -/

def podsAfter (nt : NtBus) (encode : Value → ByteArray) (pods : List StrategyPod)
    (cs : List Command) : List StrategyPod :=
  run (podsStep nt encode) pods cs

/-- The first strategy the trader of `handle` had loaded at one of the commands. -/
def Loaded (cs : List Command) (handle sid : String) : Prop :=
  ∃ c ∈ cs, (c.runtime handle).strategyIds.head? = some sid

section Runs

variable {pods : List StrategyPod} {handles : List String}

theorem handles_after (nt : NtBus) (encode : Value → ByteArray) (pods : List StrategyPod)
    (cs : List Command) :
    (podsAfter nt encode pods cs).map StrategyPod.handle = pods.map StrategyPod.handle := by
  refine run_invariant (I := fun ps : List StrategyPod =>
    ps.map StrategyPod.handle = pods.map StrategyPod.handle) rfl (fun ps c h => ?_) cs
  rw [podsStep, List.map_map, ← h]
  exact List.map_congr_left fun p _ => StrategyPod.handle_obey nt encode p c

theorem listens_after (nt : NtBus) (encode : Value → ByteArray)
    (h : ∀ p ∈ pods, Listens handles p) (cs : List Command) :
    ∀ p ∈ podsAfter nt encode pods cs, Listens handles p := by
  refine run_invariant (I := fun ps : List StrategyPod => ∀ p ∈ ps, Listens handles p) h
    (fun ps c h p hp => ?_) cs
  obtain ⟨q, hq, rfl⟩ := List.mem_map.1 hp
  exact StrategyPod.listens_obey (h q hq) nt encode c

/-- A cached id came from the trader of the same pod. -/
theorem cached_after (nt : NtBus) (encode : Value → ByteArray)
    (h : ∀ p ∈ pods, p.bridge.strategyId = none) (cs : List Command) :
    ∀ p ∈ podsAfter nt encode pods cs, ∀ sid, p.bridge.strategyId = some sid →
      Loaded cs p.handle sid := by
  refine run_history (I := fun cs (ps : List StrategyPod) => ∀ p ∈ ps, ∀ sid,
    p.bridge.strategyId = some sid → Loaded cs p.handle sid) (fun p hp sid hs => ?_)
    (fun cs c ih p hp sid hs => ?_) cs
  · rw [h p hp] at hs
    cases hs
  · obtain ⟨q, hq, rfl⟩ := List.mem_map.1 hp
    rw [StrategyPod.handle_obey]
    rcases (StrategyPod.keeps_obey nt encode q c).2 with hk | ⟨-, sid', hsid, hk⟩
    · rw [hk] at hs
      obtain ⟨c', hc', hh⟩ := ih q hq sid hs
      exact ⟨c', List.mem_append_left _ hc', hh⟩
    · rw [hk] at hs
      obtain rfl := Option.some.inj hs
      exact ⟨c, List.mem_append_right _ (List.mem_singleton_self c), hsid⟩

end Runs

/-! The way back. -/

namespace Loop

variable {s : Loop} {owner : ℕ → ReportKey} {key : ReportKey} {fut : ℕ}

/-- The future holds a report of the key. -/
def Replied (s : Loop) (key : ReportKey) (fut : ℕ) : Prop :=
  ∃ reply, s.fwd.futures fut = .resolved reply ∧ Forwarder.reportKey reply = .ok (some key)

theorem Replied.runCallback (h : s.Replied key fut) : s.runCallback.Replied key fut := by
  obtain ⟨reply, hres, hkey⟩ := h
  refine ⟨reply, ?_, hkey⟩
  cases hh : s.callbacks.jobs.head? with
  | none => rwa [runCallback_idle hh]
  | some job =>
    have hnot : fut ∉ (s.fwd.dispatched job.2).2 := by
      rw [Forwarder.mem_woken, hres]
      exact fun hc => Bool.false_ne_true hc.2
    rw [runCallback_job hh]
    dsimp only
    rw [Forwarder.futures_dispatched, if_neg hnot, hres]

theorem Replied.runCallbacks (h : s.Replied key fut) (n : ℕ) :
    (Loop.runCallback^[n] s).Replied key fut := by
  induction n generalizing s with
  | zero => exact h
  | succ n ih => exact ih h.runCallback

/-- A callback of the queue answers who waits for its key. -/
theorem replied_of_dispatches (hk : s.fwd.Keyed owner) {jobs rest : List (ℕ × EventEnvelope)}
    (hj : s.callbacks.jobs = jobs ++ rest) (hd : Dispatches jobs key)
    (hf : fut ∈ s.fwd.waiting key) : (runCallback^[jobs.length] s).Replied key fut := by
  induction jobs generalizing s with
  | nil =>
    obtain ⟨j, hj, -⟩ := hd
    cases hj
  | cons j jobs ih =>
    rw [List.length_cons, Function.iterate_succ_apply]
    obtain ⟨hjobs, -, hother⟩ := runCallback_key hk hj key
    by_cases hhead : Forwarder.reportKey j.2 = .ok (some key)
    · have hnow : s.runCallback.Replied key fut :=
        ⟨j.2, (runCallback_resolves (by rw [hj]; rfl) hhead hf).1, hhead⟩
      exact hnow.runCallbacks jobs.length
    · obtain ⟨hl, hfut⟩ := hother hhead
      rw [Forwarder.waiting, List.mem_filter] at hf
      obtain ⟨i, hi, hik⟩ := hd
      refine ih (keyed_runCallback hk).1 hjobs ⟨i, ?_, hik⟩ ?_
      · rcases List.mem_cons.1 hi with rfl | hi
        · exact absurd hik hhead
        · exact hi
      · rw [Forwarder.waiting, List.mem_filter, hl, hfut fut hf.1]
        exact hf

/-- Once handed to `enqueue`, the envelope answers who waits under the key when the queue
has run, and its own dispatch resolves nobody else. -/
structure Answers (s : Loop) (env : EventEnvelope) (channelId : ℤ) (key : ReportKey) : Prop where
  waiting : ∃ s', s.enqueue env channelId = .ok s' ∧
    ∀ fut ∈ s.fwd.waiting key, s'.drain.Replied key fut
  alone : ∃ f woken, s.fwd.dispatchReportListeners env = .ok (f, woken) ∧
    (∀ fut ∈ s.fwd.waiting key, f.futures fut = .resolved env) ∧
    ∀ other ≠ key, ∀ fut ∈ s.fwd.listenersOf other, f.futures fut = s.fwd.futures fut

theorem answers_after (ops : List ForwarderOp) {topic sid : String}
    (ht : topic ∈ onDemandReportTopics) {body : Value} (hb : ReportBody sid body)
    (hsid : sid ≠ "") (channelId : ℤ) :
    (loopAfter ops).Answers ⟨topic, body⟩ channelId (topic, .str sid) := by
  have hopen := open_loopAfter ops
  obtain ⟨owner, hk⟩ := keyed_loopAfter ops
  generalize loopAfter ops = s at hopen hk
  have hkey := reportKey_body hb hsid (ne_empty_of_onDemand ht)
  constructor
  · have hdec := Forwarder.enqueue_key ht hkey hopen
    obtain ⟨s', hs⟩ := enqueue_ok hdec channelId
    obtain ⟨todo, htodo, hfwd, -, hc, -⟩ := enqueue_cases hs
    obtain rfl := Except.ok.inj (hdec.symm.trans htodo)
    refine ⟨s', hs, fun fut hf => ?_⟩
    have hlast : Dispatches s'.callbacks.jobs (topic, .str sid) :=
      ⟨(s.ticket, ⟨topic, body⟩), by rw [hc]; simp [ticket], hkey⟩
    have hjobs : s'.callbacks.jobs = s'.callbacks.jobs ++ [] := (List.append_nil _).symm
    exact replied_of_dispatches (hfwd ▸ hk) hjobs hlast (hfwd ▸ hf)
  · refine ⟨_, _, by rw [Forwarder.dispatchReportListeners, hkey]; rfl, fun fut hf => ?_,
      fun other hother fut hf => ?_⟩
    · rw [Forwarder.waiting, List.mem_filter] at hf
      dsimp only
      rw [Forwarder.resolveAll_futures, if_pos hf]
    · -- a future belongs to one key
      have hnot : fut ∉ s.fwd.listenersOf (topic, .str sid) := fun hmem =>
        hother ((hk.listed other fut hf).1.symm.trans (hk.listed _ fut hmem).1)
      dsimp only
      rw [Forwarder.resolveAll_futures, if_neg fun hc => hnot hc.1]

end Loop

/-- What the bridge of the target does about a command, `sid` being its strategy. -/
structure Obeyed (encode : Value → ByteArray) (dec : Decoders) (c : Command) (sid : String)
    (calls : List BridgeCall) : Prop where
  pause : c.action = "pause" → calls = [.stopStrategy sid]
  resume : c.action = "resume" → calls = [.startStrategy sid]
  flatten : c.action = "flatten" → calls = [.marketExitStrategy sid]
  ping : c.action = "ping" → calls = []
  report : ∀ kind : ReportCommand, c.action = kind.action → ∃ body,
    ReportBody c.strategy body ∧ calls = [.publish kind.reportTopic (encode body)] ∧
      (dec.msgpack (encode body) = .ok body →
        ∀ (ops : List ForwarderOp) (tracker : Option OrderProgressTracker) (registry : Registry)
          (ch : Channels), ∃ env,
          (forwardStreamEntry dec ⟨some kind.reportTopic.toByteArray, .bytes (encode body)⟩ tracker
            registry ch).result = .ok (some (env, ch.logging)) ∧
          (loopAfter ops).Answers env ch.logging (kind.reportTopic, .str c.strategy))

theorem obeyed_dispatch (encode : Value → ByteArray) (dec : Decoders) {c : Command}
    {b : BridgeActor} (hh : b.controlHandle = c.strategy) (hne : c.strategy ≠ "")
    (hp : c.action ≠ "ping") (rt : NtRuntime) (sid : String) :
    Obeyed encode dec c sid (b.dispatch encode rt c.action sid) := by
  refine ⟨fun ha => ?_, fun ha => ?_, fun ha => ?_, fun ha => absurd ha hp, fun kind ha => ?_⟩
  · rw [ha]
    rfl
  · rw [ha]
    rfl
  · rw [ha]
    rfl
  · rw [ha]
    obtain ⟨body, hbody, hcalls⟩ := b.dispatch_report encode rt kind sid
    rw [hh] at hbody
    refine ⟨body, hbody, hcalls, fun hdec ops tracker registry ch =>
      ⟨⟨kind.reportTopic, body⟩, ?_, ?_⟩⟩
    · have hparse : parsePayload dec (.bytes (encode body)) = .ok body := by
        simp only [parsePayload, hdec]
      exact deliver_report (reportTopic_onDemand kind) hparse hbody .stream tracker registry ch
    · exact Loop.answers_after ops (reportTopic_onDemand kind) hbody hne ch.logging

/-- The command reaches the one pod of its id, which obeys it, and no other pod. -/
def Reaches (nt : NtBus) (encode : Value → ByteArray) (dec : Decoders) (pods : List StrategyPod)
    (pre : List Command) (c : Command) : Prop :=
  ∃ p, (podsAfter nt encode pods pre).filter (fun q => q.handle = c.strategy) = [p] ∧
    p.listings c.entry.key = 1 ∧ nt.isMatching c.entry.topic p.bridge.pattern = true ∧
    (∃ sid, Loaded (pre ++ [c]) c.strategy sid ∧
      Obeyed encode dec c sid (p.obey nt encode c).2) ∧
    ∀ q ∈ podsAfter nt encode pods pre, q.handle ≠ c.strategy → q.obey nt encode c = (q, [])

theorem exists_filter_handle {pods : List StrategyPod}
    (hd : (pods.map StrategyPod.handle).Nodup) {h : String}
    (hmem : h ∈ pods.map StrategyPod.handle) : ∃ p, pods.filter (fun q => q.handle = h) = [p] := by
  induction pods with
  | nil => cases hmem
  | cons p pods ih =>
    rw [List.map_cons, List.nodup_cons] at hd
    by_cases hp : p.handle = h
    · refine ⟨p, ?_⟩
      rw [List.filter_cons_of_pos (by simpa using hp), List.filter_eq_nil_iff.2]
      intro q hq hqh
      rw [decide_eq_true_eq] at hqh
      exact hd.1 (hp.trans hqh.symm ▸ List.mem_map_of_mem hq)
    · rw [List.filter_cons_of_neg (by simpa using hp)]
      exact ih hd.2 ((List.mem_cons.1 hmem).resolve_left fun he => hp he.symm)

/-- What the bridge does about a known action once its stream is read. -/
theorem obeyed_obey {nt : NtBus} {encode : Value → ByteArray} (dec : Decoders) {p : StrategyPod}
    {c : Command} {handles : List String} (hp : Listens handles p) (hh : p.handle = c.strategy)
    (hm : nt.isMatching c.entry.topic p.bridge.pattern = true) (ha : c.action ∈ actions)
    (hround : nt.deserialize (encode (c.entry.body c.ts)) = .ok (c.entry.body c.ts))
    (hl : (c.runtime c.strategy).strategyIds ≠ []) :
    ∃ sid, (p.bridge.strategyId = some sid ∨
        (c.runtime c.strategy).strategyIds.head? = some sid) ∧
      Obeyed encode dec c sid (p.obey nt encode c).2 := by
  have hone : p.listings c.entry.key = 1 := by
    rw [c.entry_key, ← hh]
    exact hp.own
  have hknown : c.entry.action ∈ actions := by rwa [c.entry_action]
  have hbody := BridgeActor.onCommand_body encode hknown c.ts (c.runtime p.handle) p.bridge
  obtain ⟨sid, hsid, hfrom⟩ := p.bridge.resolve_loaded hl
  refine ⟨sid, hfrom, ?_⟩
  rw [c.entry_action, hh, hsid] at hbody
  by_cases hping : c.action = "ping"
  · rw [if_pos hping] at hbody
    rw [StrategyPod.obey_of_listed hone hm hround (hh ▸ hbody)]
    have hother : ∀ a : String, a ≠ "ping" → c.action ≠ a :=
      fun a hne he => hne (he.symm.trans hping)
    refine ⟨fun h => absurd h (hother _ (by decide)), fun h => absurd h (hother _ (by decide)),
      fun h => absurd h (hother _ (by decide)), fun _ => rfl, fun kind h => absurd h ?_⟩
    cases kind <;> exact hother _ (by decide)
  · rw [if_neg hping] at hbody
    rw [StrategyPod.obey_of_listed hone hm hround (hh ▸ hbody)]
    refine obeyed_dispatch encode dec ?_ (hh ▸ hp.nonempty) hping _ sid
    rw [(p.bridge.keeps_resolve (c.runtime p.handle)).same.1]
    exact hh

/-- After any run of commands, a known command for one of the pods is read by that pod
alone, makes the call of its action there, and its report answers who waits for the pod. -/
theorem commands_reach_their_pod {nt : NtBus} (hnt : DocumentedWildcards nt.isMatching)
    (encode : Value → ByteArray) (dec : Decoders) {pods : List StrategyPod}
    (hpods : ∀ p ∈ pods, Assembled (pods.map StrategyPod.handle) p)
    (hdistinct : (pods.map StrategyPod.handle).Nodup) (pre : List Command) {c : Command}
    (htarget : c.strategy ∈ pods.map StrategyPod.handle) (haction : c.action ∈ actions)
    (hloaded : (c.runtime c.strategy).strategyIds ≠ [])
    (hround : nt.deserialize (encode (c.entry.body c.ts)) = .ok (c.entry.body c.ts)) :
    Reaches nt encode dec pods pre c := by
  have hhandles := handles_after nt encode pods pre
  have hlistens := listens_after nt encode (fun p hp => (hpods p hp).listens) pre
  have hcached := cached_after nt encode (fun p hp => (hpods p hp).uncached) pre
  obtain ⟨p, hp⟩ := exists_filter_handle (hhandles ▸ hdistinct) (hhandles ▸ htarget)
  obtain ⟨hmem, hh⟩ := List.mem_filter.1 (hp ▸ List.mem_singleton_self p)
  rw [decide_eq_true_eq] at hh
  have hm := topic_matches hnt (hlistens p hmem) hh.symm
  refine ⟨p, hp, ?_, hm, ?_, fun q hq hne => ?_⟩
  · rw [c.entry_key, ← hh]
    exact (hlistens p hmem).own
  · obtain ⟨sid, hfrom, hobeyed⟩ := obeyed_obey dec (hlistens p hmem) hh hm haction hround
      hloaded
    refine ⟨sid, ?_, hobeyed⟩
    rcases hfrom with hfrom | hfrom
    · obtain ⟨c', hc', hhead⟩ := hcached p hmem sid hfrom
      exact ⟨c', List.mem_append_left _ hc', hh ▸ hhead⟩
    · exact ⟨c, List.mem_append_right _ (List.mem_singleton_self c), hfrom⟩
  · refine StrategyPod.obey_of_unlisted ?_ nt encode
    rw [c.entry_key]
    exact (hlistens q hq).other _ htarget (Ne.symm hne)

/-! Two pods and a `/fills` for one of them. -/

/-- msgpack of a short string or a small number. -/
def fixScalar : Value → List UInt8
  | .str s => UInt8.ofNat (0xA0 + s.utf8ByteSize) :: s.toByteArray.toList
  | .int n => [UInt8.ofNat n.toNat]
  | _ => [0xC0]

/-- msgpack of a small map of such values. -/
def fixMap : Value → ByteArray
  | .dict kvs => ⟨(UInt8.ofNat (0x80 + kvs.length) ::
      kvs.flatMap fun e => fixScalar e.1 ++ fixScalar e.2).toArray⟩
  | v => ⟨(fixScalar v).toArray⟩

def twoFile (id : String) : Value :=
  .dict [(.str "strategy", .dict [(.str "id", .str id)]),
    (.str "message_bus", .dict [(.str "external_streams", .list [.str (controlStreamKey id)])])]

def twoPod (id : String) : StrategyPod :=
  ⟨[.str (controlStreamKey id)], .init ⟨id, "commands.tinohelm." ++ id, "live", false⟩⟩

def twoPods : List StrategyPod := [twoPod "h", twoPod "g"]

def fillsCommand : Command :=
  ⟨.notifier, "h", "fills", none, 0, fun _ => ⟨["Foo-h"], none, none, none,
    ⟨fun _ => .ok [], fun _ => .ok [], fun _ => .ok []⟩, .ok [], 1000⟩⟩

def twoBus : NtBus where
  isMatching topic pattern := wildcardMatch pattern.toList topic.toList
  deserialize b :=
    if b.toList == (fixMap (fillsCommand.entry.body 0)).toList then
      .ok (fillsCommand.entry.body 0)
    else .error .valueError

theorem twoPods_assembled : ∀ p ∈ twoPods, Assembled (twoPods.map StrategyPod.handle) p := by
  intro p hp
  rcases List.mem_cons.1 hp with rfl | hp
  · exact ⟨⟨none, none⟩, "h", twoFile "h", _, localRedis, _, _, rfl, rfl, rfl, rfl, by decide,
      by decide⟩
  · obtain rfl := List.mem_singleton.1 hp
    exact ⟨⟨none, none⟩, "g", twoFile "g", _, localRedis, _, _, rfl, rfl, rfl, rfl, by decide,
      by decide⟩

/-- The pod `h` publishes its fills, the pod `g` notices nothing. -/
theorem commands_reach_their_pod_fills :
    Reaches twoBus fixMap plainDecoders twoPods [] fillsCommand :=
  commands_reach_their_pod (fun _ _ => rfl) fixMap plainDecoders twoPods_assembled (by decide) []
    (by decide) (by decide) (by decide) (if_pos (beq_self_eq_true _))

end TinoHelm

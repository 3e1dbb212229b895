import TinoHelm.Proofs.CommandDelivery
import TinoHelm.Proofs.NodeModes
import TinoHelm.Proofs.StreamDelivery
import TinoHelm.Spec.ReportingActor

/-! Every report of a pod, asked for or from the timer, over the pod's whole life: it is
tagged with the id from the pod's file, and once it is read off a stream the notifier sends
it to the logging channel, unless somebody waits for just this pod's report. -/

namespace TinoHelm
open Base

/-! ### What a pod publishes -/

section
variable {nt : NtBus} {encode : Value → ByteArray} {handle : String}

def IsReport (encode : Value → ByteArray) (handle : String) : BridgeCall → Prop
  | .publish topic msg => topic ∈ onDemandReportTopics ∧
      ∃ body, msg = encode body ∧ ReportBody handle body
  | _ => True

theorem isReport_positions (df : Option DataFrame) (handle : String) (portfolio : Option Portfolio)
    (venues : List String) :
    IsReport encode handle (.publish reportTopicPositions
      (encode (positionsReportBody df handle portfolio venues))) := by
  have htopic : reportTopicPositions ∈ onDemandReportTopics := by decide
  exact ⟨htopic, _, rfl, reportBody_positions ..⟩

theorem BridgeActor.isReport_history (rt : NtRuntime) (b : BridgeActor) (kind : String) :
    IsReport encode b.controlHandle (b.publishHistoryReport encode rt kind) := by
  have hfills : reportTopicFills ∈ onDemandReportTopics := by decide
  have horders : reportTopicOrders ∈ onDemandReportTopics := by decide
  unfold BridgeActor.publishHistoryReport
  split_ifs
  · exact ⟨hfills, _, rfl, reportBody_history ..⟩
  · exact ⟨horders, _, rfl, reportBody_history ..⟩

theorem BridgeActor.isReport_dispatch (rt : NtRuntime) (b : BridgeActor) (action sid : String) :
    ∀ call ∈ b.dispatch encode rt action sid, IsReport encode b.controlHandle call := by
  intro call hcall
  unfold BridgeActor.dispatch at hcall
  split_ifs at hcall
  · rw [List.mem_singleton.1 hcall]
    trivial
  · rw [List.mem_singleton.1 hcall]
    trivial
  · rw [List.mem_singleton.1 hcall]
    trivial
  · rw [List.mem_singleton.1 hcall]
    exact isReport_positions ..
  · rw [List.mem_singleton.1 hcall]
    exact BridgeActor.isReport_history rt b action
  · exact absurd hcall List.not_mem_nil

theorem BridgeActor.isReport_onCommand {rt : NtRuntime} {b b' : BridgeActor} {message : Value}
    {calls : List BridgeCall} (h : b.onCommand encode rt message = .ok (b', calls)) :
    ∀ call ∈ calls, IsReport encode b.controlHandle call := by
  -- every branch but the dispatch publishes nothing
  have hquiet : ∀ c : BridgeActor, (.ok (c, []) : Except PyError _) = .ok (b', calls) →
      ∀ call ∈ calls, IsReport encode b.controlHandle call := by
    intro c h call hcall
    obtain ⟨-, rfl⟩ := Prod.mk.inj (Except.ok.inj h)
    exact absurd hcall List.not_mem_nil
  obtain ⟨action, -, h⟩ := bind_eq_ok.1 h
  split at h
  · exact hquiet _ h
  · obtain ⟨known, -, h⟩ := bind_eq_ok.1 h
    split_ifs at h
    · exact hquiet _ h
    · split at h
      · split_ifs at h
        · exact hquiet _ h
        · have hk := (BridgeActor.keeps_resolve rt b).same.1
          split at h
          · exact hquiet _ h
          · rename_i sid c hr
            rw [hr] at hk
            obtain ⟨-, rfl⟩ := Prod.mk.inj (Except.ok.inj h)
            rw [← hk]
            exact BridgeActor.isReport_dispatch rt c _ sid
      · exact hquiet _ h

namespace StrategyPod

theorem isReport_replay (rt : NtRuntime) (topic : String) (payload : ByteArray) (b : BridgeActor) :
    ∀ call ∈ (replay nt encode rt topic payload b).2, IsReport encode b.controlHandle call := by
  intro call hcall
  unfold replay at hcall
  cases hm : nt.deserialize payload with
  | error e =>
    rw [hm] at hcall
    exact absurd hcall List.not_mem_nil
  | ok msg =>
    rw [hm] at hcall
    dsimp only at hcall
    split_ifs at hcall
    · cases hr : b.onCommand encode rt msg with
      | error e =>
        rw [hr] at hcall
        exact absurd hcall List.not_mem_nil
      | ok r =>
        rw [hr] at hcall
        exact BridgeActor.isReport_onCommand hr call hcall
    · exact absurd hcall List.not_mem_nil

theorem isReport_replayAll (rt : NtRuntime) (topic : String) (payload : ByteArray) (n : ℕ)
    (b : BridgeActor) :
    ∀ call ∈ (replayAll nt encode rt topic payload n b).2, IsReport encode b.controlHandle call := by
  induction n generalizing b with
  | zero => exact fun call hcall => absurd hcall List.not_mem_nil
  | succ n ih =>
    intro call hcall
    rcases List.mem_append.1 hcall with hcall | hcall
    · exact isReport_replay rt topic payload b call hcall
    · rw [← (keeps_replay nt encode rt topic payload b).same.1]
      exact ih _ call hcall

theorem isReport_obey (p : StrategyPod) (c : Command) :
    ∀ call ∈ (p.obey nt encode c).2, IsReport encode p.handle call :=
  isReport_replayAll _ _ _ _ p.bridge

end StrategyPod

namespace ReportingPod

variable {lib : ActorLibrary} {p : ReportingPod}

/-- Bridge and reporting actors speak for one strategy. -/
structure SpeaksFor (handle : String) (p : ReportingPod) : Prop where
  pod : p.pod.handle = handle
  reporters : ∀ a ∈ p.reporters, a.strategyId = handle

theorem SpeaksFor.step (h : p.SpeaksFor handle) (op : PodOp) :
    (p.step nt encode lib op).SpeaksFor handle := by
  cases op with
  | command c => exact ⟨(StrategyPod.handle_obey ..).trans h.pod, h.reporters⟩
  | start =>
    refine ⟨h.pod, fun a ha => ?_⟩
    obtain ⟨a, hmem, rfl⟩ := List.mem_map.1 ha
    rw [← h.reporters a hmem, ReportingActor.onStart]
    split_ifs <;> rfl
  | stop =>
    refine ⟨h.pod, fun a ha => ?_⟩
    obtain ⟨a, hmem, rfl⟩ := List.mem_map.1 ha
    exact h.reporters a hmem
  | tick i runtime => exact h

theorem SpeaksFor.calls (h : p.SpeaksFor handle) (op : PodOp) :
    ∀ call ∈ p.calls nt encode op, IsReport encode handle call := by
  intro call hcall
  cases op with
  | command c => exact h.pod ▸ StrategyPod.isReport_obey p.pod c call hcall
  | tick i runtime =>
    cases ha : p.reporters[i]? with
    | none =>
      rw [ReportingPod.calls, ha] at hcall
      exact absurd hcall List.not_mem_nil
    | some a =>
      simp only [ReportingPod.calls, ha, Option.map_some, Option.getD_some,
        ReportingActor.onTimeEvent] at hcall
      split_ifs at hcall
      · rw [List.mem_singleton.1 hcall, ← h.reporters a (List.mem_of_getElem? ha)]
        exact isReport_positions ..
      · exact absurd hcall List.not_mem_nil
  | start => exact absurd hcall List.not_mem_nil
  | stop => exact absurd hcall List.not_mem_nil

theorem SpeaksFor.life (h : p.SpeaksFor handle) (ops : List PodOp) :
    ∀ call ∈ p.life nt encode lib ops, IsReport encode handle call :=
  trace_invariant h (fun _ op h => h.step op) (fun _ op h => h.calls op) ops

end ReportingPod

end

/-! ### A pod that was built from its file -/

/-- No member of `[[actors]]` is a second `ReportingActor`. -/
def OwnReporting (raw : Value) : Prop :=
  ∀ extras, ((raw.lookup? "actors").getD (.list [])).toList = .ok extras → ∀ x ∈ extras,
    ∀ path, subscript x "class" = .ok path → path.isStr reportingActorPath = false

variable {Cls Inst : Type} {env : NodeEnv Cls Inst} {file : TinoStrategyFile} {cfg : NodeConfig Inst}

theorem fileActors_reporting (hown : OwnReporting file.raw) {actors : List ImportableActorConfig}
    (h : fileActors file = .ok actors) : ∀ a ∈ actors, a.actorPath.isStr reportingActorPath = true →
      a.config.get "strategy_id" = .str file.strategyId := by
  simp only [fileActors, bind_eq_ok, mapError_eq_ok] at h
  obtain ⟨sec, -, extras, hextras, imports, himports, h⟩ := h
  obtain rfl := Except.ok.inj h
  intro a ha hpath
  rcases List.mem_append.1 ha with ha | ha
  · split_ifs at ha
    · rw [List.mem_singleton.1 ha]
      rfl
    · exact absurd ha List.not_mem_nil
  · obtain ⟨x, hx, hxa⟩ := exists_of_mem_mapM himports ha
    obtain ⟨path, hclass, hxa⟩ := bind_eq_ok.1 hxa
    obtain rfl := Except.ok.inj hxa
    rw [hown extras hextras x hx path hclass] at hpath
    cases hpath

theorem decode_strategyId {lib : ActorLibrary} {table : Value} {config : ReportingActorConfig}
    (h : ReportingActorConfig.decode lib table = some config) :
    table.get "strategy_id" = .str config.strategyId := by
  unfold ReportingActorConfig.decode at h
  split at h
  · rename_i strategyId _ _ hid _ _
    obtain rfl := Option.some.inj h
    exact hid
  · cases h

theorem speaksFor_build (hbuild : buildNodeConfig env file = .ok cfg) (hown : OwnReporting file.raw)
    {lib : ActorLibrary} {p : ReportingPod} (hp : ReportingPod.build lib cfg = some p) :
    p.SpeaksFor file.strategyId := by
  have hb := builtFrom_of_ok hbuild
  obtain ⟨own, hfile, hactors⟩ := buildActorImports_ok hb.fuel hb.actors
  obtain ⟨reporters, hreporters, rfl⟩ := Option.map_eq_some_iff.1 hp
  obtain ⟨user, huser⟩ : ∃ user, userStreams file.raw = .ok user := by
    have hbus := hb.busAndController
    simp only [buildTradingNodeConfig, bind_eq_ok, mapError_eq_ok] at hbus
    obtain ⟨user, huser, -⟩ := hbus
    exact ⟨user, huser⟩
  refine ⟨(buildTradingNodeConfig_ok hb.busAndController huser).2.1, fun a ha => ?_⟩
  obtain ⟨i, hi, ha⟩ := exists_of_forall₂ (mapM_eq_some_iff.1 hreporters) ha
  obtain ⟨config, hconfig, rfl⟩ := Option.map_eq_some_iff.1 ha
  obtain ⟨hi, hpath⟩ := List.mem_filter.1 hi
  have hown' : i ∈ own := by
    rw [hactors, List.mem_append] at hi
    refine hi.resolve_right fun hfeeder => ?_
    split_ifs at hfeeder
    · rw [List.mem_singleton.1 hfeeder] at hpath
      exact absurd hpath (by decide)
    · exact absurd hfeeder List.not_mem_nil
  have hid := fileActors_reporting hown hfile i hown' hpath
  rw [decode_strategyId hconfig] at hid
  exact Value.str.inj hid

/-! ### What becomes of it in the notifier -/

section
variable {py : PyText} {fmt : Formatters} {dec : Decoders} {ch : Channels} {skip : List String}

/-- A report entry is sent, or its listeners are called. -/
theorem SendTasks.sends_report (s : SendTasks) (hopen : s.loop.fwd.closed = false)
    {fields : StreamEntry} {env : EventEnvelope} (h : Undropped dec ch fields env)
    (ht : env.topic ∈ onDemandReportTopics) {key : ReportKey}
    (hkey : Forwarder.reportKey env = .ok (some key)) (registry : Registry) :
    s.loop.fwd.listenersOf key ≠ [] ∨ ∃ call : Sent, call.env = env ∧
      (sendTasksStep py fmt dec ch s (.intake (.entry fields) registry)).loop.sends =
        s.loop.sends ++ [call] := by
  obtain ⟨channelId, hres⟩ := h s.tracker registry
  by_cases hl : s.loop.fwd.listenersOf key = []
  · refine Or.inr ⟨⟨s.loop.ticket, env, channelId⟩, rfl, ?_⟩
    have hdecide := Forwarder.enqueue_key ht hkey hopen
    simp only [sendTasksStep, IntakeSource.take, hres, Loop.tryEnqueue, Loop.enqueue, hdecide, hl,
      Except.map, List.isEmpty_nil, if_true]
  · exact Or.inl hl

namespace Pipeline

/-- Somebody waited for this report when entry `k` was read. -/
def WaitedFor (py : PyText) (fmt : Formatters) (dec : Decoders) (ch : Channels) (skip : List String)
    (streams : Streams StreamEntry) (rateLimit : ℕ) (ops : List PipelineOp) (k : ℕ)
    (key : ReportKey) : Prop :=
  let after := pipelineAfter py fmt dec ch skip streams rateLimit
  ∃ pre op, pre ++ [op] <+: ops ∧ (after pre).handed.length ≤ k ∧
    k < (after (pre ++ [op])).handed.length ∧
    (after pre).forwarder.tasks.loop.fwd.listenersOf key ≠ []

/-- Each report that was handed over made its call, or was waited for. -/
structure Kept (dec : Decoders) (ch : Channels) (W : ℕ → ReportKey → Prop) (s : Pipeline) : Prop where
  served : s.Served dec ch
  report : ∀ k e env key, s.handed[k]? = some e → Undropped dec ch e.2.2 env →
    env.topic ∈ onDemandReportTopics → Forwarder.reportKey env = .ok (some key) →
    W k key ∨ s.Answered k env

variable {W W' : ℕ → ReportKey → Prop} {s s' : Pipeline}

theorem Kept.mono (h : s.Kept dec ch W)
    (hW : ∀ k key, k < s.handed.length → W k key → W' k key) : s.Kept dec ch W' :=
  ⟨h.served, fun k e env key he hu ht hkey =>
    (h.report k e env key he hu ht hkey).imp_left (hW k key (List.getElem?_eq_some_iff.1 he).1)⟩

theorem Kept.handOver (h : s.Kept dec ch W)
    (hw : ∀ key, s.forwarder.tasks.loop.fwd.listenersOf key ≠ [] → W s.handed.length key)
    (key : String) (e : StreamId × StreamEntry) :
    Kept dec ch W (s.handOver (forwardEntry py fmt dec ch) key e).1 := by
  refine ⟨h.served.handOver key e, fun k e' env rkey he hu ht hkey => ?_⟩
  rcases getElem?_handOver he with he | ⟨rfl, rfl⟩
  · exact (h.report k e' env rkey he hu ht hkey).imp_right fun h => h.handOver key e
  · obtain hl | ⟨call, rfl, hsends⟩ := @SendTasks.sends_report py fmt dec ch s.forwarder.tasks
      h.served.isOpen _ _ hu ht _ hkey s.forwarder.registry
    · exact Or.inl (hw rkey hl)
    · exact Or.inr (answered_handOver h.served.counted key e hsends)

/-- Nobody begins or ceases to wait while an entry is taken. -/
theorem fwd_handOver (s : Pipeline) (key : String) (e : StreamId × StreamEntry) :
    (s.handOver (forwardEntry py fmt dec ch) key e).1.forwarder.tasks.loop.fwd =
      s.forwarder.tasks.loop.fwd := by
  simp only [EventLoop.handOver, forwardEntry, sendTasksStep]
  split
  · exact Loop.fwd_tryEnqueue ..
  · rfl

/-- What is read in one response meets the listeners there are at its beginning. -/
theorem Kept.poll (h : s.Kept dec ch W) (count : String → ℕ) :
    (pipelineStep py fmt dec ch skip s (.stream (.poll count))).Kept dec ch fun k key =>
      W k key ∨ s.handed.length ≤ k ∧ s.forwarder.tasks.loop.fwd.listenersOf key ≠ [] := by
  refine (EventLoop.handAll_keeps (P := fun s' : Pipeline => s'.Kept dec ch (fun k key =>
      W k key ∨ s.handed.length ≤ k ∧ s.forwarder.tasks.loop.fwd.listenersOf key ≠ []) ∧
    s'.forwarder.tasks.loop.fwd = s.forwarder.tasks.loop.fwd ∧ s.handed.length ≤ s'.handed.length)
      ?_ ⟨h.mono fun k key _ => Or.inl, rfl, le_rfl⟩ (s.response count)).1
  rintro s' key e ⟨hkept, hfwd, hlen⟩
  refine ⟨hkept.handOver (fun rkey hl => Or.inr ⟨hlen, hfwd ▸ hl⟩) key e,
    (fwd_handOver s' key e).trans hfwd, hlen.trans ?_⟩
  simp only [EventLoop.handOver, List.length_append]
  exact Nat.le_add_right _ _

theorem Kept.frame (h : s.Kept dec ch W) (hserved : s'.Served dec ch) (hhanded : s'.handed = s.handed)
    (hscheduled : s'.forwarder.scheduled = s.forwarder.scheduled)
    (hs : s.forwarder.tasks.loop.sends <+: s'.forwarder.tasks.loop.sends) : s'.Kept dec ch W := by
  refine ⟨hserved, fun k e env key he hu ht hkey => ?_⟩
  rw [hhanded] at he
  refine (h.report k e env key he hu ht hkey).imp_right fun h => ?_
  obtain ⟨n, call, hn, hcall, henv⟩ := h
  exact ⟨n, call, hscheduled ▸ hn, getElem?_of_prefix hs hcall, henv⟩

theorem Kept.step (h : s.Kept dec ch W) (op : PipelineOp) :
    (pipelineStep py fmt dec ch skip s op).Kept dec ch fun k key =>
      W k key ∨ s.handed.length ≤ k ∧ s.forwarder.tasks.loop.fwd.listenersOf key ≠ [] := by
  have hserved := @Served.step py fmt dec ch skip s h.served op
  have hold : s.Kept dec ch fun k key =>
      W k key ∨ s.handed.length ≤ k ∧ s.forwarder.tasks.loop.fwd.listenersOf key ≠ [] :=
    h.mono fun k key _ => Or.inl
  cases op with
  | stream op =>
    cases op with
    | arrive key id entry => exact hold.frame hserved rfl rfl List.prefix_rfl
    | discover keys =>
      obtain ⟨hhanded, hforwarder⟩ := @watch_keeps s (discoverEventStreams keys skip)
      refine hold.frame hserved hhanded ?_ ?_
      all_goals simp only [pipelineStep, eventLoopStep]; rw [hforwarder]
    | poll count => exact h.poll count
  | task op => exact hold.frame hserved rfl rfl (SendTasks.sends_step _ op)
  | announces entries => exact hold.frame hserved rfl rfl List.prefix_rfl
  | scan keys => exact hold.frame hserved rfl rfl List.prefix_rfl

theorem kept_run (streams : Streams StreamEntry) (rateLimit : ℕ) (ops : List PipelineOp) :
    (pipelineAfter py fmt dec ch skip streams rateLimit ops).Kept dec ch
      (WaitedFor py fmt dec ch skip streams rateLimit ops) := by
  induction ops using List.reverseRecOn with
  | nil => exact ⟨served_run streams rateLimit [], by simp [pipelineAfter]⟩
  | append_singleton ops op ih =>
    have hrun : pipelineAfter py fmt dec ch skip streams rateLimit (ops ++ [op]) =
        pipelineStep py fmt dec ch skip (pipelineAfter py fmt dec ch skip streams rateLimit ops) op :=
      run_snoc _ _ ops op
    have hstep := @Kept.step py fmt dec ch skip _ _ ih op
    rw [← hrun] at hstep
    refine hstep.mono fun k key hk hw => ?_
    rcases hw with ⟨pre, last, hpre, hrest⟩ | ⟨hle, hlisted⟩
    · exact ⟨pre, last, hpre.trans (List.prefix_append _ _), hrest⟩
    · exact ⟨ops, op, List.prefix_rfl, hle, hk, hlisted⟩

end Pipeline

variable (py fmt dec ch skip)

/-- Whatever a pod reports in its life, asked for or from the timer, is about its own
strategy, and in every run of the notifier a report that was read off a stream and can be
decoded makes one call, to the logging channel, unless this strategy's report was waited for
when it was read. -/
theorem pod_reports_kept {loadEnv : LoadEnv} {path : String} {raw : Value}
    (hload : TinoStrategyFile.load loadEnv path raw = .ok file)
    (hbuild : buildNodeConfig env file = .ok cfg) (hown : OwnReporting file.raw)
    {lib : ActorLibrary} {p : ReportingPod} (hp : ReportingPod.build lib cfg = some p) (nt : NtBus)
    (encode : Value → ByteArray) (life : List PodOp) {topic : String} {msg : ByteArray}
    (hcall : .publish topic msg ∈ p.life nt encode lib life) (streams : Streams StreamEntry)
    (rateLimit : ℕ) (ops : List PipelineOp) :
    ∃ body, ReportBody file.strategyId body ∧ msg = encode body ∧ (dec.msgpack msg = .ok body →
      let s := pipelineAfter py fmt dec ch skip streams rateLimit ops
      ∀ k key id, s.handed[k]? = some (key, id, ⟨some topic.toByteArray, .bytes msg⟩) →
        Pipeline.WaitedFor py fmt dec ch skip streams rateLimit ops k
            (topic, .str file.strategyId) ∨
          MadeOneCall s k ⟨topic, body⟩ ∧ ∀ n, s.forwarder.entryOf n = some k →
            ∃ call, s.forwarder.tasks.loop.sends[n]? = some call ∧ call.channelId = ch.logging) := by
  obtain ⟨htopic, body, rfl, hbody⟩ := (speaksFor_build hbuild hown hp).life life _ hcall
  refine ⟨body, hbody, rfl, fun hround => ?_⟩
  intro s k key id hk
  have hparse : parsePayload dec (.bytes (encode body)) = .ok body := by
    simp only [parsePayload, hround]
  have hforward : ∀ tracker registry, (forwardStreamEntry dec
      ⟨some topic.toByteArray, .bytes (encode body)⟩ tracker registry ch).result =
        .ok (some (⟨topic, body⟩, ch.logging)) := fun tracker registry =>
    deliver_report htopic hparse hbody .stream tracker registry ch
  have hkey := reportKey_body hbody (TinoStrategyFile.load_ok hload).2.1 (ne_empty_of_onDemand htopic)
  have htraced : s.Traced dec ch _ := Pipeline.traced_run streams rateLimit ops
  refine ((Pipeline.kept_run streams rateLimit ops).report k _ _ _ hk (fun tracker registry =>
    ⟨ch.logging, hforward (some tracker) registry⟩) htopic hkey).imp_right fun h =>
      ⟨htraced.madeOneCall h, fun n hn => ?_⟩
  obtain ⟨e, call, registry, he, hcall', -, hobserved, hroute⟩ :=
    htraced.own _ (Pipeline.mem_scheduled hn)
  obtain rfl := Option.some.inj (hk.symm.trans he)
  have hseen := (observed_of_forwarded (hforward none registry)).1
  obtain ⟨htop, hbody'⟩ := Prod.mk.inj (Option.some.inj (hseen.symm.trans hobserved))
  refine ⟨call, hcall', ?_⟩
  have hscope : scopeOf topic body = "" := if_pos (startsWith_of_onDemand htopic)
  rw [hroute, ← htop, ← hbody', hscope]
  rfl

end

/-! A pod whose reporting actor was started and whose timer ticks once; the snapshot is read
off the stream of the pod and sent. -/

def reportingFile : Value :=
  .dict [(.str "strategy", .dict [(.str "id", .str "h"), (.str "class", .str "foo:Foo")])]

def plainActors : ActorLibrary where
  asInt
    | .int n => some n
    | _ => none
  acceptsInterval n := 0 < n

def oneTick : List PodOp := [.start, .tick 0 (fillsCommand.runtime "h")]

def snapshot : Value := positionsReportBody none "h" (some (fillsCommand.runtime "h").portfolio) []

def snapshotEntry : StreamEntry :=
  ⟨some reportTopicPositions.toByteArray, .bytes (fixMap snapshot)⟩

def snapshotDecoders : Decoders where
  msgpack b := if b.toList == (fixMap snapshot).toList then .ok snapshot else .error .decodeError
  json _ := .error .decodeError

def snapshotFormatters : Formatters := { noFormatters with positionsReport _ := .ok "" }

def snapshotOps : List PipelineOp :=
  [.stream (.discover ["trader-A-001:stream"]),
    .stream (.arrive "trader-A-001:stream" (toLex (1, 0)) snapshotEntry),
    .stream (.poll fun _ => 1), .task .attachClient, .task (.start true), .task (.sent 0 .ok)]

theorem snapshot_run :
    let s := pipelineAfter plainText snapshotFormatters snapshotDecoders ⟨1, 2, 3⟩ []
      (fun _ => .empty) 5 snapshotOps
    s.handed[0]? = some ("trader-A-001:stream", toLex (1, 0), snapshotEntry) ∧
      s.forwarder.entryOf 0 = some 0 ∧
      s.forwarder.tasks.phases 0 = .done (.answered .ok) := by
  intro s
  have hrun := congrArg (run (pipelineStep plainText snapshotFormatters snapshotDecoders ⟨1, 2, 3⟩ [])
      · [.task .attachClient, .task (.start true), .task (.sent 0 .ok)])
    (Pipeline.run_firstEntry plainText snapshotFormatters snapshotDecoders ⟨1, 2, 3⟩ {}
      snapshotEntry)
  rw [show s = _ from hrun]
  exact ⟨congrArg (·[0]?) (EventLoop.handed_single ..), by decide +kernel, by decide +kernel⟩

theorem pod_reports_kept_tick : ∃ file cfg p,
    TinoStrategyFile.load ⟨none, none⟩ "h" reportingFile = .ok file ∧
      buildNodeConfig plainNode file = .ok cfg ∧ ReportingPod.build plainActors cfg = some p ∧
      .publish reportTopicPositions (fixMap snapshot) ∈
        p.life twoBus fixMap plainActors oneTick ∧
      snapshotDecoders.msgpack (fixMap snapshot) = .ok snapshot ∧
      let s := pipelineAfter plainText snapshotFormatters snapshotDecoders ⟨1, 2, 3⟩ []
        (fun _ => .empty) 5 snapshotOps
      s.handed[0]? = some ("trader-A-001:stream", toLex (1, 0), snapshotEntry) ∧
        s.forwarder.entryOf 0 = some 0 ∧
        s.forwarder.tasks.phases 0 = .done (.answered .ok) ∧
      ∃ body, ReportBody file.strategyId body ∧ fixMap snapshot = fixMap body ∧
        (snapshotDecoders.msgpack (fixMap snapshot) = .ok body →
          ∀ k key id, s.handed[k]? = some (key, id, snapshotEntry) →
            Pipeline.WaitedFor plainText snapshotFormatters snapshotDecoders ⟨1, 2, 3⟩ []
                (fun _ => .empty) 5 snapshotOps k (reportTopicPositions, .str file.strategyId) ∨
              MadeOneCall s k ⟨reportTopicPositions, body⟩ ∧
                ∀ n, s.forwarder.entryOf n = some k →
                  ∃ call, s.forwarder.tasks.loop.sends[n]? = some call ∧ call.channelId = 3) := by
  have hown : OwnReporting reportingFile := by
    intro extras hextras x hx
    obtain rfl := Except.ok.inj hextras
    exact absurd hx List.not_mem_nil
  have hlife : ∀ p : ReportingPod, p.reporters = [ReportingActor.init ⟨"h", 30, true⟩] →
      .publish reportTopicPositions (fixMap snapshot) ∈
        p.life twoBus fixMap plainActors oneTick := by
    intro p hp
    simp [ReportingPod.life, oneTick, trace, ReportingPod.calls, ReportingPod.step, hp,
      ReportingActor.onTimeEvent, ReportingActor.onStart, ReportingActor.init, plainActors,
      ReportingActor.tick, buildPositionsReportPayload, fillsCommand, venuesFromCache, snapshot]
  obtain ⟨hhanded, hentry, hphase⟩ := snapshot_run
  exact ⟨_, _, _, rfl, rfl, rfl, hlife _ rfl, if_pos (beq_self_eq_true _), hhanded, hentry, hphase,
    @pod_reports_kept _ _ plainNode _ _ plainText snapshotFormatters snapshotDecoders ⟨1, 2, 3⟩ []
      ⟨none, none⟩ "h" reportingFile rfl rfl hown plainActors _ rfl twoBus fixMap oneTick _ _
      (hlife _ rfl) (fun _ => .empty) 5 snapshotOps⟩

end TinoHelm

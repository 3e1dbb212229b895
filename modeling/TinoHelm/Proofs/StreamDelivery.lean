import TinoHelm.Proofs.ReportDelivery
import TinoHelm.Proofs.SendDrain
import TinoHelm.Proofs.StreamOrder

/-! No event is lost on the way: from every state the loop can catch up with the streams
and the tasks of a channel with their calls, and an entry that no gate drops then has the
one call that was made for it. -/

namespace TinoHelm
open Base

variable {py : PyText} {fmt : Formatters} {dec : Decoders} {ch : Channels} {skip : List String}

/-- Whatever the notifier knows, the entry is forwarded as this event. -/
def Undropped (dec : Decoders) (ch : Channels) (fields : StreamEntry) (env : EventEnvelope) : Prop :=
  ∀ tracker registry, ∃ channelId,
    (forwardStreamEntry dec fields (some tracker) registry ch).result = .ok (some (env, channelId))

namespace SendTasks

theorem open_step (s : SendTasks) (op : SendTaskOp) :
    (sendTasksStep py fmt dec ch s op).loop.fwd.closed = s.loop.fwd.closed := by
  cases op with
  | intake src registry =>
    simp only [sendTasksStep]
    split
    · rw [Loop.fwd_tryEnqueue]
    · rfl
  | forwarder op => exact TinoHelm.open_step s.loop op
  | _ => rw [loop_step s (by simp) (by simp)]

/-- An entry that is never dropped schedules its call, unless it may be a reply. -/
theorem sends_undropped (s : SendTasks) (hopen : s.loop.fwd.closed = false) {fields : StreamEntry}
    {env : EventEnvelope} (h : Undropped dec ch fields env) (ht : env.topic ∉ onDemandReportTopics)
    (registry : Registry) : ∃ call : Sent, call.env = env ∧
      (sendTasksStep py fmt dec ch s (.intake (.entry fields) registry)).loop.sends =
        s.loop.sends ++ [call] := by
  obtain ⟨channelId, hres⟩ := h s.tracker registry
  refine ⟨⟨s.loop.ticket, env, channelId⟩, rfl, ?_⟩
  simp only [sendTasksStep, IntakeSource.take, hres]
  exact Loop.sends_tryEnqueue_event channelId hopen ht

end SendTasks

/-- The call has come to its end, and was posted once unless it ended before that. -/
def Finished (s : SendTasks) (n : ℕ) : Prop :=
  ∃ ending, s.phases n = .done ending ∧
    (s.embeds.map Prod.fst).count n = if (TaskPhase.done ending).posted then 1 else 0

/-- The entry `k` has made one call, of its own event. -/
def MadeOneCall (s : Pipeline) (k : ℕ) (env : EventEnvelope) : Prop :=
  ∃! n, s.forwarder.entryOf n = some k ∧
    ∃ call, s.forwarder.tasks.loop.sends[n]? = some call ∧ call.env = env

namespace Pipeline

variable {s : Pipeline}

/-- Each entry handed over that is never dropped has made a call with its event. -/
structure Served (dec : Decoders) (ch : Channels) (s : Pipeline) : Prop where
  isOpen : s.forwarder.tasks.loop.fwd.closed = false
  counted : s.forwarder.entries = s.handed.length
  call : ∀ k e env, s.handed[k]? = some e → Undropped dec ch e.2.2 env →
    env.topic ∉ onDemandReportTopics →
    ∃ n call, (n, k) ∈ s.forwarder.scheduled ∧ s.forwarder.tasks.loop.sends[n]? = some call ∧
      call.env = env

theorem Served.frame (h : s.Served dec ch) {s' : Pipeline} (hhanded : s'.handed = s.handed)
    (hentries : s'.forwarder.entries = s.forwarder.entries)
    (hscheduled : s'.forwarder.scheduled = s.forwarder.scheduled)
    (hs : s.forwarder.tasks.loop.sends <+: s'.forwarder.tasks.loop.sends)
    (hopen : s'.forwarder.tasks.loop.fwd.closed = false) : s'.Served dec ch := by
  refine ⟨hopen, ?_, fun k e env he hu ht => ?_⟩
  · rw [hentries, hhanded]
    exact h.counted
  · rw [hhanded] at he
    obtain ⟨n, call, hn, hcall, henv⟩ := h.call k e env he hu ht
    exact ⟨n, call, hscheduled ▸ hn, getElem?_of_prefix hs hcall, henv⟩

def Answered (s : Pipeline) (k : ℕ) (env : EventEnvelope) : Prop :=
  ∃ n call, (n, k) ∈ s.forwarder.scheduled ∧ s.forwarder.tasks.loop.sends[n]? = some call ∧
    call.env = env

theorem Answered.handOver {k : ℕ} {env : EventEnvelope} (h : s.Answered k env) (key : String)
    (e : StreamId × StreamEntry) :
    Answered (s.handOver (forwardEntry py fmt dec ch) key e).1 k env := by
  obtain ⟨n, call, hn, hcall, henv⟩ := h
  have hs := @SendTasks.sends_step py fmt dec ch s.forwarder.tasks
    (.intake (.entry e.2) s.forwarder.registry)
  refine ⟨n, call, ?_, getElem?_of_prefix hs hcall, henv⟩
  simp only [EventLoop.handOver, forwardEntry]
  split_ifs
  · exact List.mem_append_left _ hn
  · exact hn

/-- The call that an entry makes is its own. -/
theorem answered_handOver (hcount : s.forwarder.entries = s.handed.length) (key : String)
    (e : StreamId × StreamEntry) {call : Sent}
    (hsends : (sendTasksStep py fmt dec ch s.forwarder.tasks
      (.intake (.entry e.2) s.forwarder.registry)).loop.sends = s.forwarder.tasks.loop.sends ++ [call]) :
    Answered (s.handOver (forwardEntry py fmt dec ch) key e).1 s.handed.length call.env := by
  refine ⟨s.forwarder.tasks.loop.sends.length, call, ?_, ?_, rfl⟩
  · simp only [EventLoop.handOver, forwardEntry, hsends, List.length_append, List.length_singleton,
      hcount, Nat.lt_succ_self, if_true]
    exact List.mem_append_right _ List.mem_cons_self
  · simp only [EventLoop.handOver, forwardEntry, hsends, List.getElem?_concat_length]

/-- Behind a call the entries handed over are those before it and the one it was for. -/
theorem getElem?_handOver {key : String} {e : StreamId × StreamEntry} {k : ℕ}
    {e' : String × StreamId × StreamEntry}
    (h : (s.handOver (forwardEntry py fmt dec ch) key e).1.handed[k]? = some e') :
    s.handed[k]? = some e' ∨ k = s.handed.length ∧ e' = (key, e) := by
  simp only [EventLoop.handOver] at h
  rcases Nat.lt_or_ge k s.handed.length with hk | hk
  · rw [List.getElem?_append_left hk] at h
    exact Or.inl h
  · have hlen := (List.getElem?_eq_some_iff.1 h).1
    rw [List.length_append, List.length_singleton] at hlen
    obtain rfl : k = s.handed.length := by omega
    rw [List.getElem?_concat_length] at h
    exact Or.inr ⟨rfl, (Option.some.inj h).symm⟩

theorem Served.handOver (h : s.Served dec ch) (key : String) (e : StreamId × StreamEntry) :
    Served dec ch (s.handOver (forwardEntry py fmt dec ch) key e).1 := by
  refine ⟨(SendTasks.open_step ..).trans h.isOpen, ?_, fun k e' env he hu ht => ?_⟩
  · simp only [EventLoop.handOver, forwardEntry, h.counted, List.length_append,
      List.length_singleton]
  · rcases getElem?_handOver he with he | ⟨rfl, rfl⟩
    · exact Answered.handOver (h.call k e' env he hu ht) key e
    · obtain ⟨call, rfl, hsends⟩ := @SendTasks.sends_undropped py fmt dec ch s.forwarder.tasks
        h.isOpen _ _ hu ht s.forwarder.registry
      exact answered_handOver h.counted key e hsends

theorem Served.step (h : s.Served dec ch) (op : PipelineOp) :
    Served dec ch (pipelineStep py fmt dec ch skip s op) := by
  cases op with
  | stream op =>
    cases op with
    | arrive key id entry => exact h.frame rfl rfl rfl List.prefix_rfl h.isOpen
    | discover keys =>
      obtain ⟨hhanded, hforwarder⟩ := @watch_keeps s (discoverEventStreams keys skip)
      refine h.frame hhanded ?_ ?_ ?_ ?_
      all_goals simp only [pipelineStep, eventLoopStep]; rw [hforwarder]
      exact h.isOpen
    | poll count =>
      exact @EventLoop.handAll_keeps _ _ (forwardEntry py fmt dec ch) (Served dec ch)
        (fun _ key e h => Served.handOver h key e) s h (s.response count)
  | task op =>
    exact h.frame rfl rfl rfl (SendTasks.sends_step _ op) ((SendTasks.open_step _ op).trans h.isOpen)
  | announces entries => exact h.frame rfl rfl rfl List.prefix_rfl h.isOpen
  | scan keys => exact h.frame rfl rfl rfl List.prefix_rfl h.isOpen

theorem served_run (streams : Streams StreamEntry) (rateLimit : ℕ) (ops : List PipelineOp) :
    (pipelineAfter py fmt dec ch skip streams rateLimit ops).Served dec ch :=
  run_invariant (I := Served dec ch) ⟨rfl, rfl, by simp⟩ (fun _ op h => h.step op) ops

theorem Traced.entryOf_of_mem {R : Registry → Prop} (h : s.Traced dec ch R) {n k : ℕ}
    (hn : (n, k) ∈ s.forwarder.scheduled) : s.forwarder.entryOf n = some k := by
  have hnodup : (s.forwarder.scheduled.map Prod.fst).Nodup :=
    List.pairwise_map.2 (h.increasing.imp fun hab => hab.1.ne)
  exact (Dict.get?_eq_some_iff ⟨s.forwarder.scheduled, hnodup⟩ n k).2 hn

theorem Traced.madeOneCall {R : Registry → Prop} (h : s.Traced dec ch R) {k : ℕ}
    {env : EventEnvelope} (ha : s.Answered k env) : MadeOneCall s k env := by
  obtain ⟨n, call, hn, hcall, henv⟩ := ha
  have hentry := h.entryOf_of_mem hn
  exact ⟨n, ⟨hentry, call, hcall, henv⟩, fun m hm => h.entryOf_inj hm.1 hentry⟩

theorem Served.madeOneCall (h : s.Served dec ch) {R : Registry → Prop} (ht : s.Traced dec ch R)
    {k : ℕ} {e : String × StreamId × StreamEntry} {env : EventEnvelope}
    (he : s.handed[k]? = some e) (hu : Undropped dec ch e.2.2 env)
    (htopic : env.topic ∉ onDemandReportTopics) : MadeOneCall s k env :=
  ht.madeOneCall (h.call k e env he hu htopic)

/-! ### Catching up -/

theorem run_polls (s : Pipeline) (n : ℕ) (count : String → ℕ) :
    run (pipelineStep py fmt dec ch skip) s (List.replicate n (.stream (.poll count))) =
      run (eventLoopStep (forwardEntry py fmt dec ch) skip) s (List.replicate n (.poll count)) := by
  induction n generalizing s with
  | zero => rfl
  | succ n ih => exact ih _

theorem run_tasks (s : Pipeline) (ops : List SendTaskOp) :
    run (pipelineStep py fmt dec ch skip) s (ops.map .task) =
      { s with forwarder := { s.forwarder with
          tasks := run (sendTasksStep py fmt dec ch) s.forwarder.tasks ops } } := by
  induction ops generalizing s with
  | nil => rfl
  | cons op ops ih => exact ih _

/-- The calls for a channel can be finished by steps of its own tasks. -/
theorem drains (streams : Streams StreamEntry) {rateLimit : ℕ} (hrate : 0 < rateLimit)
    (ops : List PipelineOp) (channelId : ℤ) (cached : Bool) (fetch send : ℕ → Answer) :
    ∃ steps : List SendTaskOp, (∀ op ∈ steps, op.enqueues = false) ∧
      let s := pipelineAfter py fmt dec ch skip streams rateLimit (ops ++ steps.map .task)
      s.handed = (pipelineAfter py fmt dec ch skip streams rateLimit ops).handed ∧
      ∀ n, s.forwarder.tasks.isOn n channelId = true → Finished s.forwarder.tasks n := by
  obtain ⟨taskOps, htasks, -⟩ := @tasks_run py fmt dec ch skip streams rateLimit ops
  have hstart := @SendTasks.permitted_run py fmt dec ch rateLimit taskOps
  obtain ⟨steps, hown, -, hapart, hdone⟩ := @SendTasks.drain py fmt dec ch cached fetch send
    channelId _ _ hstart (hrate.trans_eq (SendTasks.rateLimit_run rateLimit taskOps).symm) rfl
  refine ⟨steps, fun op hop => ?_, ?_⟩
  · have hown := hown op hop
    cases op with
    | intake src registry => exact absurd hown id
    | forwarder op => exact absurd hown id
    | _ => rfl
  · intro s
    have hs : s = run (pipelineStep py fmt dec ch skip)
        (pipelineAfter py fmt dec ch skip streams rateLimit ops) (steps.map .task) :=
      run_append _ _ _ _
    rw [run_tasks, htasks, ← run_append] at hs
    have hpermitted := @SendTasks.permitted_run py fmt dec ch rateLimit (taskOps ++ steps)
    rw [run_append] at hs hpermitted
    refine ⟨by rw [hs], fun n hn => ?_⟩
    rw [hs] at hn ⊢
    have hphase := hdone n ((hapart.isOn n channelId).symm.trans hn)
    have hposted := hpermitted.posted n
    cases hp : (run (sendTasksStep py fmt dec ch) (run (sendTasksStep py fmt dec ch)
        { rateLimit := rateLimit } taskOps) steps).phases n with
    | done ending =>
      rw [hp] at hposted
      exact ⟨ending, hp, hposted⟩
    | _ =>
      rw [hp] at hphase
      cases hphase

/-- A step of the loop towards the streams or of a task towards its end. -/
def CatchesUp : PipelineOp → Prop
  | .stream (.poll _) => True
  | .task op => op.enqueues = false
  | _ => False

end Pipeline

variable (py fmt dec ch skip)

/-- From every state some polls and steps of the tasks hand over all that is left of the
discovered streams and finish the calls for a channel; an entry that no gate drops has
then made its one call, whatever else was dropped or has raised. -/
theorem backlog_delivered (streams : Streams StreamEntry) {rateLimit : ℕ} (hrate : 0 < rateLimit)
    (ops : List PipelineOp) (channelId : ℤ) (cached : Bool) (fetch send : ℕ → Answer) :
    let s := pipelineAfter py fmt dec ch skip streams rateLimit ops
    ∃ more, (∀ op ∈ more, Pipeline.CatchesUp op) ∧
      let s' := pipelineAfter py fmt dec ch skip streams rateLimit (ops ++ more)
      (∀ key t, s.tails.get? key = some t → s'.handedOf key = (s.streams key).after t) ∧
      (∀ n, s'.forwarder.tasks.isOn n channelId = true → Finished s'.forwarder.tasks n) ∧
      ∀ k e env, s'.handed[k]? = some e → Undropped dec ch e.2.2 env →
        env.topic ∉ onDemandReportTopics → MadeOneCall s' k env := by
  intro s
  have hsync : s.Synced skip := Pipeline.synced_run streams rateLimit ops
  let polls : List PipelineOp := List.replicate s.backlog (.stream (.poll s.lengths))
  obtain ⟨steps, hsteps, hhanded, hfinished⟩ := @Pipeline.drains py fmt dec ch skip streams _ hrate
    (ops ++ polls) channelId cached fetch send
  refine ⟨polls ++ steps.map .task, fun op hop => ?_, ?_⟩
  · rcases List.mem_append.1 hop with hop | hop
    · rw [List.eq_of_mem_replicate hop]
      trivial
    · obtain ⟨o, ho, rfl⟩ := List.mem_map.1 hop
      exact hsteps o ho
  intro s'
  have hs' : s' = pipelineAfter py fmt dec ch skip streams rateLimit
      (ops ++ polls ++ steps.map .task) := by
    rw [List.append_assoc]
  rw [← hs'] at hhanded hfinished
  refine ⟨fun key t ht => ?_, hfinished, fun k e env he hu htopic => ?_⟩
  · obtain ⟨c, hc⟩ : ∃ c, s.cursors.get? key = some c := by
      refine Option.ne_none_iff_exists'.1 fun hnone => ?_
      rw [(hsync.fresh key hnone).1] at ht
      cases ht
    have hpolled : pipelineAfter py fmt dec ch skip streams rateLimit (ops ++ polls) =
        run (eventLoopStep (forwardEntry py fmt dec ch) skip) s
          (List.replicate s.backlog (.poll s.lengths)) :=
      (run_append _ _ _ _).trans (Pipeline.run_polls ..)
    rw [EventLoop.handedOf, hhanded, hpolled]
    exact hsync.handed_all (forwardEntry py fmt dec ch) ht hc
  · exact (Pipeline.served_run streams rateLimit _).madeOneCall
      (Pipeline.traced_run streams rateLimit _) he hu htopic

/-- The first entry of a stream that was discovered before. -/
theorem Pipeline.run_firstEntry (t : StreamIntake) (e : StreamEntry) :
    let s : Pipeline := { streams := fun _ => .empty, forwarder := t }
    run (pipelineStep py fmt dec ch []) s [.stream (.discover ["trader-A-001:stream"]),
      .stream (.arrive "trader-A-001:stream" (toLex (1, 0)) e), .stream (.poll fun _ => 1)] =
      EventLoop.handAll (forwardEntry py fmt dec ch)
        ((s.watch "trader-A-001:stream").arrive "trader-A-001:stream" (toLex (1, 0)) e)
        [("trader-A-001:stream", [(toLex (1, 0), e)])] := by
  intro s
  have hglob : matchesGlob "trader-A-001:stream" eventStreamGlob = true := by decide
  have hdiscovered : discoverEventStreams ["trader-A-001:stream"] [] = ["trader-A-001:stream"] := by
    simp [discoverEventStreams, hglob]
  have hread : ((s.watch "trader-A-001:stream").arrive "trader-A-001:stream" (toLex (1, 0))
      e).response (fun _ => 1) = [("trader-A-001:stream", [(toLex (1, 0), e)])] := by
    rfl
  simp only [run_cons, run_nil, pipelineStep, eventLoopStep, hdiscovered, List.foldl_cons,
    List.foldl_nil, hread]

/-- A stream that a message is written to after its discovery. -/
theorem backlog_delivered_message :
    let ops := [.stream (.discover ["trader-A-001:stream"]),
      .stream (.arrive "trader-A-001:stream" (toLex (1, 0))
        ⟨some "tinohelm.message".toByteArray, .dict []⟩), .task .attachClient]
    let s := pipelineAfter plainText noFormatters textDecoders ⟨1, 2, 3⟩ [] (fun _ => .empty) 5 ops
    ∃ more, (∀ op ∈ more, Pipeline.CatchesUp op) ∧
      let s' := pipelineAfter plainText noFormatters textDecoders ⟨1, 2, 3⟩ [] (fun _ => .empty) 5
        (ops ++ more)
      (∀ key t, s.tails.get? key = some t → s'.handedOf key = (s.streams key).after t) ∧
      (∀ n, s'.forwarder.tasks.isOn n 3 = true → Finished s'.forwarder.tasks n) ∧
      ∀ k e env, s'.handed[k]? = some e → Undropped textDecoders ⟨1, 2, 3⟩ e.2.2 env →
        env.topic ∉ onDemandReportTopics → MadeOneCall s' k env :=
  backlog_delivered plainText noFormatters textDecoders ⟨1, 2, 3⟩ [] _ (by decide) _ 3 true
    (fun _ => .ok) fun _ => .ok

end TinoHelm

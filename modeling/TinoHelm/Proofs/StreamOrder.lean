import Mathlib.Data.List.ReduceOption
import TinoHelm.Proofs.ExactlyOnce
import TinoHelm.Proofs.SendOrder
import TinoHelm.Spec.Pipeline

/-! From the streams to the channels: what a channel gets was read off a stream, every
entry reaches at most one channel and once only, and as long as the client's cache knows
the channels, each of them gets the events of a pod in the order the pod wrote them. -/

namespace TinoHelm
open Base

variable {py : PyText} {fmt : Formatters} {dec : Decoders} {ch : Channels} {skip : List String}

/-- The step may schedule a call of `_send`. -/
def SendTaskOp.enqueues : SendTaskOp → Bool
  | .intake _ _ | .forwarder (.enqueue _ _) => true
  | _ => false

theorem channel_of_forwarded {fields : StreamEntry} {tracker : Option OrderProgressTracker}
    {registry : Registry} {env : EventEnvelope} {channelId : ℤ}
    (h : (forwardStreamEntry dec fields tracker registry ch).result = .ok (some (env, channelId))) :
    channelId = routeChannel (scopeOf env.topic env.body) registry ch := by
  obtain ⟨ho, hfeed⟩ := observed_of_forwarded h
  rw [forwardStreamEntry_observed ho] at h
  obtain ⟨t, ht⟩ : ∃ t, feed tracker env.body = (t, none) := ⟨_, Prod.ext rfl hfeed⟩
  rw [ht] at h
  dsimp only at h
  split_ifs at h
  · simp at h
  · simp only [gate_eq_ok, pure_eq_ok, Except.ok.injEq, Option.some.injEq, Prod.mk.injEq] at h
    exact h.2.2.2.2.symm

/-- A call that is scheduled is the one asked for. -/
theorem Loop.sends_tryEnqueue_cases (s : Loop) (env : EventEnvelope) (channelId : ℤ) :
    (s.tryEnqueue env channelId).sends = s.sends ∨
      (s.tryEnqueue env channelId).sends = s.sends ++ [⟨s.ticket, env, channelId⟩] := by
  unfold Loop.tryEnqueue Loop.enqueue
  cases s.fwd.enqueue env with
  | error e => exact Or.inl rfl
  | ok todo =>
    simp only [Except.map]
    split_ifs
    · exact Or.inr rfl
    · exact Or.inl rfl

namespace SendTasks

theorem loop_step (s : SendTasks) {op : SendTaskOp} (hintake : ∀ src registry, op ≠ .intake src registry)
    (hforwarder : ∀ o, op ≠ .forwarder o) : (sendTasksStep py fmt dec ch s op).loop = s.loop := by
  cases op with
  | intake src registry => exact absurd rfl (hintake src registry)
  | forwarder op => exact absurd rfl (hforwarder op)
  | attachClient => rfl
  | start cached =>
    simp only [sendTasksStep]
    split
    · rfl
    · rename_i call _
      split_ifs
      · rfl
      · obtain h | h | h := acquire_advance py fmt s.begin s.started call <;> rw [h.loop] <;> rfl
      · rfl
  | fetched n answer =>
    simp only [sendTasksStep]
    split
    · rfl
    · rename_i call _
      split_ifs
      · obtain h | h | h := acquire_advance py fmt s n call <;> rw [h.loop]
      · rfl
  | resume c =>
    simp only [sendTasksStep]
    split
    · rfl
    · split
      · rfl
      · rename_i n _ _ call _
        obtain h | h := post_advance py fmt (s.setSemaphore c (s.semaphoreFor c).resume) n call
        all_goals
          rw [h.loop]
          rfl
  | sent n answer =>
    simp only [sendTasksStep]
    split
    · rfl
    · split_ifs <;> rfl

theorem sends_step_of_quiet (s : SendTasks) {op : SendTaskOp} (hop : op.enqueues = false) :
    (sendTasksStep py fmt dec ch s op).loop.sends = s.loop.sends := by
  cases op with
  | intake src registry => cases hop
  | forwarder op =>
    cases op with
    | enqueue env channelId => cases hop
    | callback => exact s.loop.sends_runCallback
    | watch topic sid => rfl
    | cancel future => rfl
    | drop topic sid future => rfl
  | _ => rw [loop_step s (by simp) (by simp)]

theorem sends_step (s : SendTasks) (op : SendTaskOp) :
    s.loop.sends <+: (sendTasksStep py fmt dec ch s op).loop.sends := by
  by_cases hop : op.enqueues = true
  · cases op with
    | intake src registry =>
      simp only [sendTasksStep]
      split
      · exact s.loop.sends_tryEnqueue _ _
      · exact List.prefix_rfl
    | forwarder op => exact s.loop.sends_forwarderStep op
    | _ => cases hop
  · rw [sends_step_of_quiet s (Bool.not_eq_true _ ▸ hop)]

/-- An entry schedules nothing, or one call with its own event. -/
theorem sends_entry (s : SendTasks) (fields : StreamEntry) (registry : Registry) :
    (sendTasksStep py fmt dec ch s (.intake (.entry fields) registry)).loop.sends = s.loop.sends ∨
      ∃ call : Sent,
        (sendTasksStep py fmt dec ch s (.intake (.entry fields) registry)).loop.sends =
          s.loop.sends ++ [call] ∧
        observed dec fields = some (call.env.topic, call.env.body) ∧
        call.channelId = routeChannel (scopeOf call.env.topic call.env.body) registry ch := by
  simp only [sendTasksStep, IntakeSource.take]
  split
  · rename_i env channelId hres
    obtain h | h := s.loop.sends_tryEnqueue_cases env channelId
    · exact Or.inl h
    · exact Or.inr ⟨_, h, (observed_of_forwarded hres).1, channel_of_forwarded hres⟩
  · exact Or.inl rfl

end SendTasks

namespace EventLoop

theorem handed_single {σ α : Type} (forward : σ → α → σ × Bool) (s : EventLoop σ α)
    (key : String) (e : StreamId × α) :
    (s.handAll forward [(key, [e])]).handed = s.handed ++ [(key, e)] := by
  rcases hf : forward s.forwarder e.2 with ⟨f, _ | _⟩
  all_goals simp [handAll, handBatch, handOver, hf]

/-- What every single call of `_forward_stream_entry` keeps, a whole response keeps. -/
theorem handAll_keeps {σ α : Type} {forward : σ → α → σ × Bool} {P : EventLoop σ α → Prop}
    (h : ∀ s key e, P s → P (s.handOver forward key e).1) {s : EventLoop σ α} (hs : P s)
    (response : List (String × List (StreamId × α))) : P (s.handAll forward response) := by
  have hbatch : ∀ (batch : List (StreamId × α)) (s : EventLoop σ α) (key : String), P s →
      P (s.handBatch forward key batch).1 := by
    intro batch
    induction batch with
    | nil => exact fun s key hs => hs
    | cons e batch ih =>
      intro s key hs
      have he := h s key e hs
      rw [handBatch]
      cases hr : s.handOver forward key e with
      | mk s' raised =>
        rw [hr] at he
        cases raised with
        | true => exact he
        | false => exact ih s' key he
  induction response generalizing s with
  | nil => exact hs
  | cons b response ih =>
    have hb := hbatch b.2 s b.1 hs
    rw [handAll]
    cases hr : s.handBatch forward b.1 b.2 with
    | mk s' raised =>
      rw [hr] at hb
      cases raised with
      | true => exact hb
      | false => exact ih hb

end EventLoop

namespace Pipeline

/-- The calls that entries made: later entries made later calls, none made two, and each
call has the event of its entry and goes where the registry of the time, one of those
in `R`, sends it. -/
structure Traced (dec : Decoders) (ch : Channels) (R : Registry → Prop) (s : Pipeline) :
    Prop where
  registry : R s.forwarder.registry
  counted : s.forwarder.entries = s.handed.length
  increasing : s.forwarder.scheduled.Pairwise fun a b => a.1 < b.1 ∧ a.2 < b.2
  own : ∀ p ∈ s.forwarder.scheduled, ∃ e call registry,
    s.handed[p.2]? = some e ∧ s.forwarder.tasks.loop.sends[p.1]? = some call ∧ R registry ∧
      observed dec e.2.2 = some (call.env.topic, call.env.body) ∧
      call.channelId = routeChannel (scopeOf call.env.topic call.env.body) registry ch

variable {R R' : Registry → Prop} {s : Pipeline}

theorem Traced.frame (h : s.Traced dec ch R) (hR : ∀ r, R r → R' r) {s' : Pipeline}
    (hhanded : s'.handed = s.handed) (hentries : s'.forwarder.entries = s.forwarder.entries)
    (hscheduled : s'.forwarder.scheduled = s.forwarder.scheduled)
    (hs : s.forwarder.tasks.loop.sends <+: s'.forwarder.tasks.loop.sends)
    (hr : R' s'.forwarder.registry) : s'.Traced dec ch R' := by
  refine ⟨hr, ?_, ?_, fun p hp => ?_⟩
  · rw [hentries, hhanded]
    exact h.counted
  · rw [hscheduled]
    exact h.increasing
  · rw [hscheduled] at hp
    obtain ⟨e, call, reg, he, hcall, hreg, hrest⟩ := h.own p hp
    rw [hhanded]
    exact ⟨e, call, reg, he, getElem?_of_prefix hs hcall, hR reg hreg, hrest⟩

theorem Traced.handOver (h : s.Traced dec ch R) (key : String) (e : StreamId × StreamEntry) :
    Traced dec ch R (s.handOver (forwardEntry py fmt dec ch) key e).1 := by
  have hold : ∀ tasks : SendTasks, s.forwarder.tasks.loop.sends <+: tasks.loop.sends →
      ∀ p ∈ s.forwarder.scheduled, ∃ e' call registry,
        (s.handed ++ [(key, e)])[p.2]? = some e' ∧ tasks.loop.sends[p.1]? = some call ∧
          R registry ∧ observed dec e'.2.2 = some (call.env.topic, call.env.body) ∧
          call.channelId = routeChannel (scopeOf call.env.topic call.env.body) registry ch := by
    intro tasks hs p hp
    obtain ⟨e', call, registry, he, hcall, hrest⟩ := h.own p hp
    exact ⟨e', call, registry, getElem?_of_prefix (List.prefix_append _ _) he,
      getElem?_of_prefix hs hcall, hrest⟩
  have hcount : s.forwarder.entries + 1 = (s.handed ++ [(key, e)]).length := by
    rw [h.counted, List.length_append]
    rfl
  have hs := @SendTasks.sends_step py fmt dec ch s.forwarder.tasks
    (.intake (.entry e.2) s.forwarder.registry)
  refine ⟨h.registry, hcount, ?_, ?_⟩
  · simp only [EventLoop.handOver, forwardEntry]
    split_ifs
    · refine List.pairwise_append.2 ⟨h.increasing, List.pairwise_singleton _ _, ?_⟩
      intro p hp q hq
      rw [List.mem_singleton.1 hq]
      obtain ⟨e', call, registry, he, hcall, -⟩ := h.own p hp
      rw [h.counted]
      exact ⟨(List.getElem?_eq_some_iff.1 hcall).1, (List.getElem?_eq_some_iff.1 he).1⟩
    · exact h.increasing
  · simp only [EventLoop.handOver, forwardEntry]
    split_ifs with hlt
    · intro p hp
      rcases List.mem_append.1 hp with hp | hp
      · exact hold _ hs p hp
      · rw [List.mem_singleton.1 hp]
        obtain hnone | ⟨call, hcall, hobs, hroute⟩ := @SendTasks.sends_entry py fmt dec ch
          s.forwarder.tasks e.2 s.forwarder.registry
        · rw [hnone] at hlt
          exact absurd hlt (lt_irrefl _)
        · refine ⟨(key, e), call, s.forwarder.registry, ?_, ?_, h.registry, hobs, hroute⟩
          · rw [h.counted, List.getElem?_concat_length]
          · rw [hcall, List.getElem?_concat_length]
    · exact hold _ hs

theorem watch_keeps (keys : List String) :
    (keys.foldl EventLoop.watch s).handed = s.handed ∧
      (keys.foldl EventLoop.watch s).forwarder = s.forwarder := by
  induction keys generalizing s with
  | nil => exact ⟨rfl, rfl⟩
  | cons key keys ih =>
    have hwatch : (s.watch key).handed = s.handed ∧ (s.watch key).forwarder = s.forwarder := by
      unfold EventLoop.watch
      split_ifs
      · exact ⟨rfl, rfl⟩
      · exact ⟨rfl, rfl⟩
    exact ⟨ih.1.trans hwatch.1, ih.2.trans hwatch.2⟩

theorem Traced.step (h : s.Traced dec ch R) (hR : ∀ r, R r → R' r) {op : PipelineOp}
    (hr : R' (pipelineStep py fmt dec ch skip s op).forwarder.registry) :
    (pipelineStep py fmt dec ch skip s op).Traced dec ch R' := by
  cases op with
  | stream op =>
    cases op with
    | arrive key id entry => exact h.frame hR rfl rfl rfl List.prefix_rfl hr
    | discover keys =>
      obtain ⟨hhanded, hforwarder⟩ := @watch_keeps s (discoverEventStreams keys skip)
      refine h.frame hR hhanded ?_ ?_ ?_ hr
      all_goals simp only [pipelineStep, eventLoopStep]; rw [hforwarder]
    | poll count =>
      have hall := @EventLoop.handAll_keeps _ _ (forwardEntry py fmt dec ch) (Traced dec ch R)
        (fun _ key e h => Traced.handOver h key e) s h (s.response count)
      exact hall.frame hR rfl rfl rfl List.prefix_rfl hr
  | task op => exact h.frame hR rfl rfl rfl (SendTasks.sends_step _ op) hr
  | announces entries => exact h.frame hR rfl rfl rfl List.prefix_rfl hr
  | scan keys => exact h.frame hR rfl rfl rfl List.prefix_rfl hr

def Had (py : PyText) (fmt : Formatters) (dec : Decoders) (ch : Channels) (skip : List String)
    (streams : Streams StreamEntry) (rateLimit : ℕ) (ops : List PipelineOp) (r : Registry) : Prop :=
  ∃ pre, pre <+: ops ∧ (pipelineAfter py fmt dec ch skip streams rateLimit pre).forwarder.registry = r

theorem traced_run (streams : Streams StreamEntry) (rateLimit : ℕ) (ops : List PipelineOp) :
    (pipelineAfter py fmt dec ch skip streams rateLimit ops).Traced dec ch
      (Had py fmt dec ch skip streams rateLimit ops) := by
  induction ops using List.reverseRecOn with
  | nil => exact ⟨⟨[], List.prefix_rfl, rfl⟩, rfl, List.Pairwise.nil, nofun⟩
  | append_singleton ops op ih =>
    have hlast : Had py fmt dec ch skip streams rateLimit (ops ++ [op])
        (pipelineStep py fmt dec ch skip (pipelineAfter py fmt dec ch skip streams rateLimit ops)
          op).forwarder.registry :=
      ⟨_, List.prefix_rfl, by rw [pipelineAfter, run_snoc, ← pipelineAfter]⟩
    have hstep := ih.step (fun r hr => by
      obtain ⟨pre, hpre, heq⟩ := hr
      exact ⟨pre, hpre.trans (List.prefix_append _ _), heq⟩) hlast
    rw [pipelineAfter, run_snoc]
    exact hstep

/-- Steps of the tasks that the loop takes by itself. -/
def EntryOps (ops : List SendTaskOp) : Prop :=
  ∀ op ∈ ops, ∃ fields registry, op = .intake (.entry fields) registry

theorem tasks_poll (count : String → ℕ) :
    ∃ more, EntryOps more ∧
      (pipelineStep py fmt dec ch skip s (.stream (.poll count))).forwarder.tasks =
        run (sendTasksStep py fmt dec ch) s.forwarder.tasks more := by
  refine EventLoop.handAll_keeps (P := fun s' : Pipeline => ∃ more, EntryOps more ∧
    s'.forwarder.tasks = run (sendTasksStep py fmt dec ch) s.forwarder.tasks more) ?_
    ⟨[], nofun, rfl⟩ (s.response count)
  intro s' key e hs
  obtain ⟨more, hmore, htasks⟩ := hs
  refine ⟨more ++ [.intake (.entry e.2) s'.forwarder.registry], fun op hop => ?_, ?_⟩
  · rcases List.mem_append.1 hop with hop | hop
    · exact hmore op hop
    · exact ⟨_, _, List.mem_singleton.1 hop⟩
  · rw [run_snoc, ← htasks]
    rfl

/-- The tasks of the pipeline are those of a run of their own. -/
theorem tasks_run (streams : Streams StreamEntry) (rateLimit : ℕ) (ops : List PipelineOp) :
    ∃ taskOps, (pipelineAfter py fmt dec ch skip streams rateLimit ops).forwarder.tasks =
        run (sendTasksStep py fmt dec ch) { rateLimit := rateLimit } taskOps ∧
      ∀ op ∈ taskOps, .task op ∈ ops ∨ ∃ fields registry, op = .intake (.entry fields) registry := by
  induction ops using List.reverseRecOn with
  | nil => exact ⟨[], rfl, nofun⟩
  | append_singleton ops op ih =>
    obtain ⟨taskOps, htasks, hmem⟩ := ih
    rw [pipelineAfter, run_snoc, ← pipelineAfter]
    generalize pipelineAfter py fmt dec ch skip streams rateLimit ops = s at htasks
    have hsame : ∀ s' : Pipeline, s'.forwarder.tasks = s.forwarder.tasks →
        ∃ taskOps, s'.forwarder.tasks =
            run (sendTasksStep py fmt dec ch) { rateLimit := rateLimit } taskOps ∧
          ∀ o ∈ taskOps, .task o ∈ ops ++ [op] ∨
            ∃ fields registry, o = .intake (.entry fields) registry := fun s' hs' =>
      ⟨taskOps, hs'.trans htasks, fun o ho =>
        (hmem o ho).imp_left fun h => List.mem_append_left _ h⟩
    cases op with
    | stream op =>
      cases op with
      | arrive key id entry => exact hsame _ rfl
      | discover keys =>
        exact hsame _ (congrArg StreamIntake.tasks (@watch_keeps s _).2)
      | poll count =>
        obtain ⟨more, hmore, hpoll⟩ := @tasks_poll py fmt dec ch skip s count
        refine ⟨taskOps ++ more, by rw [hpoll, htasks, run_append], fun o ho => ?_⟩
        rcases List.mem_append.1 ho with ho | ho
        · exact (hmem o ho).imp_left fun h => List.mem_append_left _ h
        · exact Or.inr (hmore o ho)
    | task taskOp =>
      refine ⟨taskOps ++ [taskOp], ?_, fun o ho => ?_⟩
      · rw [run_snoc, ← htasks]
        rfl
      · rcases List.mem_append.1 ho with ho | ho
        · exact (hmem o ho).imp_left fun h => List.mem_append_left _ h
        · rw [List.mem_singleton.1 ho]
          exact Or.inl (List.mem_append_right _ List.mem_cons_self)
    | announces entries => exact hsame _ rfl
    | scan keys => exact hsame _ rfl

theorem mem_scheduled {n k : ℕ} (h : s.forwarder.entryOf n = some k) :
    (n, k) ∈ s.forwarder.scheduled := by
  obtain ⟨before, behind, hlist, -⟩ := List.lookup_eq_some_iff.1 h
  rw [hlist]
  exact List.mem_append_right _ List.mem_cons_self

/-- Later calls are those of later entries. -/
theorem Traced.entryOf_lt (h : s.Traced dec ch R) {n m k l : ℕ} (hnm : n < m)
    (hn : s.forwarder.entryOf n = some k) (hm : s.forwarder.entryOf m = some l) : k < l := by
  have hall := @List.Pairwise.forall_of_forall_of_flip _ s.forwarder.scheduled
    (fun a b => a.1 < b.1 → a.2 < b.2) (fun a _ ha => absurd ha (lt_irrefl _))
    (h.increasing.imp fun hab _ => hab.2)
    (h.increasing.imp fun hab hba => absurd hba hab.1.not_gt)
  exact hall (mem_scheduled hn) (mem_scheduled hm) hnm

theorem Traced.entryOf_inj (h : s.Traced dec ch R) {n m k : ℕ}
    (hn : s.forwarder.entryOf n = some k) (hm : s.forwarder.entryOf m = some k) : n = m := by
  obtain hlt | heq | hlt := lt_trichotomy n m
  · exact absurd (h.entryOf_lt hlt hn hm) (lt_irrefl k)
  · exact heq
  · exact absurd (h.entryOf_lt hlt hm hn) (lt_irrefl k)

/-- The entries of a stream whose events the channel got, in this order. -/
def postedFrom (s : Pipeline) (key : String) (channelId : ℤ) : List (StreamId × StreamEntry) :=
  ((((s.forwarder.tasks.postsOn channelId).filterMap s.forwarder.entryOf).filterMap
    fun k => s.handed[k]?).filter fun e => e.1 = key).map Prod.snd

/-- A channel whose calls come in the order they were made in gets the entries in the
order they were handed over in. -/
theorem Traced.postedFrom_sublist (h : s.Traced dec ch R) {channelId : ℤ}
    (hposts : (s.forwarder.tasks.postsOn channelId).Pairwise (· < ·)) (key : String) :
    (s.postedFrom key channelId).Sublist (s.handedOf key) := by
  refine ((sublist_of_increasing s.handed ?_).filter _).map _
  refine List.Pairwise.filterMap _ (fun n m hnm k hk l hl => ?_) hposts
  exact h.entryOf_lt hnm hk hl

/-- Nobody but the loop has called `enqueue`: every call has its entry. -/
def Closed (s : Pipeline) : Prop :=
  s.forwarder.scheduled.map Prod.fst = List.range s.forwarder.tasks.loop.sends.length

theorem Closed.handOver (h : s.Closed) (key : String) (e : StreamId × StreamEntry) :
    Closed (s.handOver (forwardEntry py fmt dec ch) key e).1 := by
  simp only [Closed, EventLoop.handOver, forwardEntry]
  obtain hnone | ⟨call, hcall, -⟩ := @SendTasks.sends_entry py fmt dec ch
    s.forwarder.tasks e.2 s.forwarder.registry
  · rw [hnone, if_neg (lt_irrefl _)]
    exact h
  · rw [hcall, List.length_append, List.length_singleton, if_pos (Nat.lt_succ_self _),
      List.map_append, h, List.range_succ]
    rfl

theorem Closed.step (h : s.Closed) {op : PipelineOp}
    (hop : ∀ o, op = .task o → o.enqueues = false) :
    Closed (pipelineStep py fmt dec ch skip s op) := by
  cases op with
  | stream op =>
    cases op with
    | arrive key id entry => exact h
    | discover keys =>
      simp only [Closed, pipelineStep, eventLoopStep, watch_keeps]
      exact h
    | poll count =>
      exact @EventLoop.handAll_keeps _ _ (forwardEntry py fmt dec ch) Closed
        (fun _ key e h => Closed.handOver h key e) s h (s.response count)
  | task o =>
    simp only [Closed, pipelineStep]
    rw [SendTasks.sends_step_of_quiet _ (hop o rfl)]
    exact h
  | announces entries => exact h
  | scan keys => exact h

theorem closed_run (streams : Streams StreamEntry) (rateLimit : ℕ) {ops : List PipelineOp}
    (hops : ∀ op, .task op ∈ ops → op.enqueues = false) :
    (pipelineAfter py fmt dec ch skip streams rateLimit ops).Closed := by
  induction ops using List.reverseRecOn with
  | nil => rfl
  | append_singleton ops op ih =>
    rw [pipelineAfter, run_snoc, ← pipelineAfter]
    refine (ih fun o ho => hops o (List.mem_append_left _ ho)).step fun o ho => hops o ?_
    rw [ho]
    exact List.mem_append_right _ List.mem_cons_self

theorem synced_run (streams : Streams StreamEntry) (rateLimit : ℕ) (ops : List PipelineOp) :
    (pipelineAfter py fmt dec ch skip streams rateLimit ops).Synced skip := by
  refine run_invariant (I := EventLoop.Synced skip) (EventLoop.synced_init skip streams _) ?_ ops
  intro s op h
  cases op with
  | stream op => exact h.step _ op
  | task op => exact ⟨h.fresh, h.watched⟩
  | announces entries => exact ⟨h.fresh, h.watched⟩
  | scan keys => exact ⟨h.fresh, h.watched⟩

end Pipeline

variable (py fmt dec ch skip)

/-- Whatever the order of the steps: no entry is sent twice, not even to two channels; a
call has the topic and body of its entry and goes where the registry sends it that the
notifier had then; and every call has an entry, if nobody but the loop called `enqueue`. -/
theorem calls_traced_to_entries (streams : Streams StreamEntry) (rateLimit : ℕ)
    (ops : List PipelineOp) :
    let s := pipelineAfter py fmt dec ch skip streams rateLimit ops
    ((s.forwarder.tasks.embeds.map Prod.fst).filterMap s.forwarder.entryOf).Nodup ∧
      (∀ n k, s.forwarder.entryOf n = some k → ∃ e call pre,
        s.handed[k]? = some e ∧ s.forwarder.tasks.loop.sends[n]? = some call ∧ pre <+: ops ∧
          observed dec e.2.2 = some (call.env.topic, call.env.body) ∧
          call.channelId = routeChannel (scopeOf call.env.topic call.env.body)
            (pipelineAfter py fmt dec ch skip streams rateLimit pre).forwarder.registry ch) ∧
      ((∀ op, .task op ∈ ops → op.enqueues = false) →
        ∀ n < s.forwarder.tasks.loop.sends.length, (s.forwarder.entryOf n).isSome) := by
  intro s
  have h : s.Traced dec ch (Pipeline.Had py fmt dec ch skip streams rateLimit ops) :=
    Pipeline.traced_run streams rateLimit ops
  refine ⟨List.Nodup.filterMap (fun n m k hn hm => h.entryOf_inj hn hm) ?_, fun n k hk => ?_,
    fun hquiet n hn => ?_⟩
  · obtain ⟨taskOps, htasks, -⟩ := @Pipeline.tasks_run py fmt dec ch skip streams rateLimit ops
    have hposted := (@SendTasks.permitted_run py fmt dec ch rateLimit taskOps).posted
    rw [← htasks] at hposted
    refine List.nodup_iff_count_le_one.2 fun n => ?_
    rw [hposted]
    split_ifs <;> omega
  · obtain ⟨e, call, registry, he, hcall, ⟨pre, hpre, rfl⟩, hrest⟩ :=
      h.own _ (Pipeline.mem_scheduled hk)
    exact ⟨e, call, pre, he, hcall, hpre, hrest⟩
  · have hclosed : s.Closed := Pipeline.closed_run streams rateLimit hquiet
    have hn' : n ∈ s.forwarder.scheduled.map Prod.fst := hclosed ▸ List.mem_range.2 hn
    obtain ⟨p, hp, rfl⟩ := List.mem_map.1 hn'
    exact List.lookup_isSome_iff.2 ⟨p, hp, beq_self_eq_true _⟩

/-- Between the tail of its stream and the cursor: what a channel that the client's cache
knows got of a stream are entries behind the tail, each once, as the pod ordered them. -/
theorem stream_order_kept (streams : Streams StreamEntry) (rateLimit : ℕ) (ops : List PipelineOp)
    (hops : .task (.start false) ∉ ops) (key : String) (channelId : ℤ) :
    let s := pipelineAfter py fmt dec ch skip streams rateLimit ops
    s.postedFrom key channelId = [] ∨ key ∉ skip ∧ ∃ t, s.tails.get? key = some t ∧
      (s.postedFrom key channelId).Sublist ((s.streams key).after t) := by
  intro s
  have h : s.Traced dec ch (Pipeline.Had py fmt dec ch skip streams rateLimit ops) :=
    Pipeline.traced_run streams rateLimit ops
  have hsync : s.Synced skip := Pipeline.synced_run streams rateLimit ops
  have hposts : (s.forwarder.tasks.postsOn channelId).Pairwise (· < ·) := by
    obtain ⟨taskOps, htasks, hmem⟩ := @Pipeline.tasks_run py fmt dec ch skip streams rateLimit ops
    have hcached : SendTaskOp.start false ∉ taskOps := fun hstart => by
      obtain hin | ⟨fields, registry, heq⟩ := hmem _ hstart
      · exact hops hin
      · cases heq
    have hline := (@SendTasks.inLine_run py fmt dec ch rateLimit _ hcached).sorted channelId
    rw [← htasks] at hline
    exact (List.pairwise_append.1 hline).1
  have hsub := h.postedFrom_sublist hposts key
  cases hc : s.cursors.get? key with
  | none =>
    left
    rw [(hsync.fresh key hc).2] at hsub
    exact List.sublist_nil.1 hsub
  | some c =>
    obtain ⟨hskip, -, t, htc, htail, hhanded⟩ := hsync.watched key c hc
    refine Or.inr ⟨hskip, t, htail, hsub.trans ?_⟩
    rw [hhanded, ← Log.between_append_after _ htc]
    exact List.sublist_append_left _ _

/-- A stream that one entry is written to after its discovery. -/
theorem stream_order_kept_entry :
    let ops := [.stream (.discover ["trader-A-001:stream"]),
      .stream (.arrive "trader-A-001:stream" (toLex (1, 0)) ⟨some "tinohelm.message".toByteArray, .dict []⟩),
      .stream (.poll fun _ => 1), .task .attachClient, .task (.start true)]
    let s := pipelineAfter plainText noFormatters textDecoders ⟨1, 2, 3⟩ [] (fun _ => .empty) 5 ops
    PipelineOp.task (.start false) ∉ ops ∧
      (s.postedFrom "trader-A-001:stream" 3 = [] ∨ "trader-A-001:stream" ∉ ([] : List String) ∧
        ∃ t, s.tails.get? "trader-A-001:stream" = some t ∧
          (s.postedFrom "trader-A-001:stream" 3).Sublist
            ((s.streams "trader-A-001:stream").after t)) :=
  ⟨by simp, stream_order_kept plainText noFormatters textDecoders ⟨1, 2, 3⟩ [] _ 5 _ (by simp) _ 3⟩

end TinoHelm

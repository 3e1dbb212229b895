import TinoHelm.Base.Machine
import TinoHelm.Spec.Forwarder

/-! Which way a report envelope goes. `enqueue` sends it unless a future is listed
for it; the dispatch resolves the futures listed later, when its callback runs.
Both decisions are read off the run, and they agree or the report is lost or
doubled. -/

namespace TinoHelm
open Base

namespace Loop

def sendsOf (s : Loop) (ticket : ℕ) : List Sent := s.sends.filter fun e => e.ticket = ticket

def wakesOf (s : Loop) (ticket : ℕ) : List Wake := s.wakes.filter fun w => w.ticket = ticket

/-- The logs only mention calls that were made, and wakes only older calls than the
callbacks that still wait. -/
structure Ordered (s : Loop) : Prop where
  sends : ∀ e ∈ s.sends, e.ticket < s.ticket
  wakes : ∀ w ∈ s.wakes, s.callbacks.Gone w.ticket
  wakes_lt : ∀ w ∈ s.wakes, ∀ j ∈ s.callbacks.jobs, w.ticket < j.1

/-- What no later step takes back. -/
structure Extends (s s' : Loop) : Prop where
  ticket : s.ticket ≤ s'.ticket
  gone : ∀ n, s.callbacks.Gone n → s'.callbacks.Gone n
  sends : ∀ n < s.ticket, s'.sendsOf n = s.sendsOf n
  wakes : ∀ n, s.callbacks.Gone n → s'.wakesOf n = s.wakesOf n

theorem Extends.refl (s : Loop) : Extends s s :=
  ⟨le_rfl, fun _ h => h, fun _ _ => rfl, fun _ _ => rfl⟩

theorem Extends.trans {a b c : Loop} (h1 : Extends a b) (h2 : Extends b c) : Extends a c where
  ticket := h1.ticket.trans h2.ticket
  gone n h := h2.gone n (h1.gone n h)
  sends n h := (h2.sends n (h.trans_le h1.ticket)).trans (h1.sends n h)
  wakes n h := (h2.wakes n (h1.gone n h)).trans (h1.wakes n h)

theorem ordered_init : Ordered {} := ⟨by simp, by simp, by simp⟩

theorem extends_fwd (s : Loop) (f : Forwarder) : Extends s { s with fwd := f } :=
  ⟨le_rfl, fun _ h => h, fun _ _ => rfl, fun _ _ => rfl⟩

theorem Ordered.fwd {s : Loop} (h : Ordered s) (f : Forwarder) : Ordered { s with fwd := f } :=
  ⟨h.sends, h.wakes, h.wakes_lt⟩

variable {s s' : Loop} {env : EventEnvelope} {channelId : ℤ}

theorem enqueue_cases (h : s.enqueue env channelId = .ok s') :
    ∃ todo, s.fwd.enqueue env = .ok todo ∧ s'.fwd = s.fwd ∧ s'.wakes = s.wakes ∧
      (s'.callbacks = if todo.dispatch then s.callbacks.push env else s.callbacks.skip) ∧
      s'.sends = s.sends ++ if todo.send then [⟨s.ticket, env, channelId⟩] else [] := by
  unfold enqueue at h
  obtain ⟨todo, ht, rfl⟩ := map_eq_ok.1 h
  refine ⟨todo, ht, rfl, rfl, rfl, ?_⟩
  by_cases hs : todo.send = true <;> simp [hs]

theorem enqueue_ok {todo : Scheduled} (h : s.fwd.enqueue env = .ok todo) (channelId : ℤ) :
    ∃ s', s.enqueue env channelId = .ok s' := by
  simp [enqueue, h, Except.map]

theorem extends_enqueue (h : s.enqueue env channelId = .ok s') : Extends s s' := by
  obtain ⟨todo, -, -, hw, hc, hs⟩ := enqueue_cases h
  refine ⟨?_, fun n hn => ?_, fun n hn => ?_, fun n _ => by rw [wakesOf, hw, wakesOf]⟩
  · rw [ticket, ticket, hc]
    split_ifs <;> simp
  · rw [hc]
    split_ifs
    · exact hn.push
    · exact hn.skip
  · have hne : s.ticket ≠ n := Nat.ne_of_gt hn
    rw [sendsOf, hs, List.filter_append, sendsOf]
    split_ifs <;> simp [hne]

theorem ticket_enqueue (h : s.enqueue env channelId = .ok s') : s'.ticket = s.ticket + 1 := by
  obtain ⟨todo, -, -, -, hc, -⟩ := enqueue_cases h
  rw [ticket, ticket, hc]
  split_ifs <;> rfl

/-- What a call of `enqueue` sent is settled when it returns. -/
theorem Ordered.sendsOf_enqueue (ho : Ordered s) {todo : Scheduled}
    (hd : s.fwd.enqueue env = .ok todo) (h : s.enqueue env channelId = .ok s') :
    s'.sendsOf s.ticket = if todo.send then [⟨s.ticket, env, channelId⟩] else [] := by
  obtain ⟨todo', hd', -, -, -, hs⟩ := enqueue_cases h
  obtain rfl : todo' = todo := by
    rw [hd, Except.ok.injEq] at hd'
    exact hd'.symm
  have hnone : s.sendsOf s.ticket = [] := by
    rw [sendsOf, List.filter_eq_nil_iff]
    intro e he
    have := ho.sends e he
    simp only [decide_eq_true_eq]
    omega
  rw [sendsOf, hs, List.filter_append, ← sendsOf, hnone]
  split_ifs <;> simp

theorem Ordered.enqueue (ho : Ordered s) (h : s.enqueue env channelId = .ok s') : Ordered s' := by
  obtain ⟨todo, -, -, hw, hc, hs⟩ := enqueue_cases h
  have hext := extends_enqueue h
  refine ⟨fun e he => ?_, fun w hmem => ?_, fun w hmem j hj => ?_⟩
  · rw [hs, List.mem_append] at he
    rcases he with he | he
    · exact (ho.sends e he).trans_le hext.ticket
    · split_ifs at he
      · rw [List.mem_singleton.1 he, ticket_enqueue h]
        exact Nat.lt_succ_self _
      · simp at he
  · rw [hw] at hmem
    exact hext.gone _ (ho.wakes w hmem)
  · rw [hw] at hmem
    rw [hc] at hj
    split_ifs at hj
    · rcases List.mem_append.1 hj with hj | hj
      · exact ho.wakes_lt w hmem j hj
      · rw [List.mem_singleton.1 hj]
        exact (ho.wakes w hmem).1
    · exact ho.wakes_lt w hmem j hj

/-- The oldest callback runs: the futures it resolves are logged under its number. -/
theorem runCallback_cases (s : Loop) :
    (s.callbacks.jobs = [] ∧ s.runCallback = s) ∨
    ∃ n env, ∃ woken : List ℕ, s.callbacks.jobs.head? = some (n, env) ∧
      s.runCallback.callbacks = s.callbacks.tail ∧ s.runCallback.sends = s.sends ∧
      s.runCallback.wakes = s.wakes ++ woken.map (⟨n, ·⟩) := by
  cases hh : s.callbacks.jobs.head? with
  | none => exact Or.inl ⟨List.head?_eq_none_iff.1 hh, runCallback_idle hh⟩
  | some job =>
    refine Or.inr ⟨job.1, job.2, (s.fwd.dispatched job.2).2, rfl, ?_⟩
    rw [runCallback_job hh]
    exact ⟨rfl, rfl, rfl⟩

theorem closed_runCallback (s : Loop) : s.runCallback.fwd.closed = s.fwd.closed := by
  cases hh : s.callbacks.jobs.head? with
  | none => rw [runCallback_idle hh]
  | some job =>
    rw [runCallback_job hh]
    exact s.fwd.closed_dispatched job.2

theorem extends_runCallback (s : Loop) : Extends s s.runCallback := by
  rcases runCallback_cases s with ⟨-, hs⟩ | ⟨n, env, woken, hh, hc, hs, hw⟩
  · rw [hs]
    exact Extends.refl s
  · refine ⟨?_, fun m hm => ?_, fun m _ => by rw [sendsOf, hs, sendsOf], fun m hm => ?_⟩
    · rw [ticket, ticket, hc, Fifo.next_tail]
    · rw [hc]
      exact hm.tail
    · have hne : n ≠ m := by
        rintro rfl
        exact hm.2 (List.mem_map_of_mem (List.mem_of_mem_head? hh))
      rw [wakesOf, hw, List.filter_append, wakesOf]
      simp [List.filter_map, Function.comp_def, hne]

theorem Ordered.runCallback (ho : Ordered s) : Ordered s.runCallback := by
  rcases runCallback_cases s with ⟨-, hs⟩ | ⟨n, env, woken, hh, hc, hs, hw⟩
  · rwa [hs]
  · have hext := extends_runCallback s
    refine ⟨fun e he => ?_, fun w hmem => ?_, fun w hmem j hj => ?_⟩
    · rw [hs] at he
      exact (ho.sends e he).trans_le hext.ticket
    · rw [hw, List.mem_append] at hmem
      rcases hmem with hmem | hmem
      · exact hext.gone _ (ho.wakes w hmem)
      · obtain ⟨fut, -, rfl⟩ := List.mem_map.1 hmem
        rw [hc]
        exact Fifo.gone_tail hh
    · rw [hc] at hj
      rw [hw, List.mem_append] at hmem
      rcases hmem with hmem | hmem
      · exact ho.wakes_lt w hmem j (List.mem_of_mem_tail hj)
      · obtain ⟨fut, -, rfl⟩ := List.mem_map.1 hmem
        exact Fifo.head_lt_of_tail hh j hj

/-- A call whose callback still waits has woken nobody yet. -/
theorem Ordered.wakesOf_queued (ho : Ordered s) {n : ℕ} (h : s.callbacks.Queued n) :
    s.wakesOf n = [] := by
  obtain ⟨j, hj, rfl⟩ := List.mem_map.1 h
  rw [wakesOf, List.filter_eq_nil_iff]
  intro w hw
  have := ho.wakes_lt w hw j hj
  simp only [decide_eq_true_eq]
  omega

theorem runCallback_wakesOf (ho : Ordered s) {n : ℕ} {key : ReportKey}
    (hh : s.callbacks.jobs.head? = some (n, env)) (hk : Forwarder.reportKey env = .ok (some key)) :
    s.runCallback.wakesOf n = [] ↔ s.fwd.waiting key = [] := by
  have hq : s.callbacks.Queued n := List.mem_map_of_mem (List.mem_of_mem_head? hh)
  rw [wakesOf, runCallback_job hh, List.filter_append, ← wakesOf, ho.wakesOf_queued hq,
    ← Forwarder.woken_eq_nil_iff hk]
  simp [List.filter_map, Function.comp_def]

end Loop

def loopAfter (ops : List ForwarderOp) : Loop := run forwarderStep {} ops

theorem extends_step (s : Loop) (op : ForwarderOp) : s.Extends (forwarderStep s op) := by
  cases op with
  | watch topic sid => exact s.extends_fwd _
  | enqueue env channelId =>
    simp only [forwarderStep, Loop.tryEnqueue]
    cases h : s.enqueue env channelId with
    | error e => exact Loop.Extends.refl s
    | ok s' => exact Loop.extends_enqueue h
  | callback => exact s.extends_runCallback
  | cancel future => exact s.extends_fwd _
  | drop topic sid future => exact s.extends_fwd _

theorem ordered_step {s : Loop} (ho : s.Ordered) (op : ForwarderOp) :
    (forwarderStep s op).Ordered := by
  cases op with
  | watch topic sid => exact ho.fwd _
  | enqueue env channelId =>
    simp only [forwarderStep, Loop.tryEnqueue]
    cases h : s.enqueue env channelId with
    | error e => exact ho
    | ok s' => exact ho.enqueue h
  | callback => exact ho.runCallback
  | cancel future => exact ho.fwd _
  | drop topic sid future => exact ho.fwd _

theorem extends_run (s : Loop) (ops : List ForwarderOp) : s.Extends (run forwarderStep s ops) :=
  run_invariant (I := s.Extends) (Loop.Extends.refl s) (fun t op h => h.trans (extends_step t op)) ops

theorem ordered_loopAfter (ops : List ForwarderOp) : (loopAfter ops).Ordered :=
  run_invariant Loop.ordered_init (fun _ op h => ordered_step h op) ops

theorem open_step (s : Loop) (op : ForwarderOp) :
    (forwarderStep s op).fwd.closed = s.fwd.closed := by
  cases op with
  | watch topic sid => rfl
  | enqueue env channelId =>
    simp only [forwarderStep, Loop.tryEnqueue]
    cases h : s.enqueue env channelId with
    | error e => rfl
    | ok s' =>
      obtain ⟨-, -, hf, -⟩ := Loop.enqueue_cases h
      dsimp only
      rw [hf]
  | callback => exact s.closed_runCallback
  | cancel future => exact s.fwd.closed_cancel future
  | drop topic sid future => exact s.fwd.closed_dropReportListener topic sid future

theorem open_loopAfter (ops : List ForwarderOp) : (loopAfter ops).fwd.closed = false :=
  run_invariant (I := fun s : Loop => s.fwd.closed = false) rfl
    (fun s op h => (open_step s op).trans h) ops

/-- A report envelope with a strategy id is enqueued in a run, and its callback runs. -/
structure Delivery (ops pre mid : List ForwarderOp) (env : EventEnvelope) (channelId : ℤ)
    (key : ReportKey) : Prop where
  inRun : ∃ post, ops = pre ++ .enqueue env channelId :: mid ++ .callback :: post
  onDemand : env.topic ∈ onDemandReportTopics
  key : Forwarder.reportKey env = .ok (some key)
  callback : (loopAfter (pre ++ .enqueue env channelId :: mid)).callbacks.jobs.head? =
    some ((loopAfter pre).ticket, env)

/-- The call was sent to the channel it was handed, or woke a future, and not both. -/
def OneWay (s : Loop) (ticket : ℕ) (env : EventEnvelope) (channelId : ℤ) : Prop :=
  Xor (s.sendsOf ticket = [⟨ticket, env, channelId⟩]) (s.wakesOf ticket ≠ [])

variable {ops pre mid : List ForwarderOp} {env : EventEnvelope} {channelId : ℤ} {key : ReportKey}

theorem Delivery.sends (h : Delivery ops pre mid env channelId key) :
    (loopAfter ops).sendsOf (loopAfter pre).ticket =
      if (loopAfter pre).fwd.listenersOf key = [] then [⟨(loopAfter pre).ticket, env, channelId⟩]
      else [] := by
  obtain ⟨post, rfl⟩ := h.inRun
  have hdec := Forwarder.enqueue_key h.onDemand h.key (open_loopAfter pre)
  obtain ⟨s', hs⟩ := Loop.enqueue_ok hdec channelId
  have hrun : loopAfter (pre ++ .enqueue env channelId :: mid ++ .callback :: post) =
      run forwarderStep s' (mid ++ .callback :: post) := by
    rw [List.append_assoc, List.cons_append, loopAfter, run_append, run_cons]
    congr 1
    simp only [forwarderStep, Loop.tryEnqueue]
    rw [← loopAfter, hs]
  have hlt : (loopAfter pre).ticket < s'.ticket := by
    rw [Loop.ticket_enqueue hs]
    exact Nat.lt_succ_self _
  rw [hrun, (extends_run s' _).sends _ hlt, (ordered_loopAfter pre).sendsOf_enqueue hdec hs]
  simp

theorem Delivery.wakes (h : Delivery ops pre mid env channelId key) :
    (loopAfter ops).wakesOf (loopAfter pre).ticket = [] ↔
      (loopAfter (pre ++ .enqueue env channelId :: mid)).fwd.waiting key = [] := by
  obtain ⟨post, rfl⟩ := h.inRun
  have hrun : loopAfter (pre ++ .enqueue env channelId :: mid ++ .callback :: post) =
      run forwarderStep (loopAfter (pre ++ .enqueue env channelId :: mid)).runCallback post := by
    rw [loopAfter, run_append, run_cons]
    rfl
  have hgone := Fifo.gone_tail h.callback
  rcases Loop.runCallback_cases (loopAfter (pre ++ .enqueue env channelId :: mid)) with
    ⟨hnil, -⟩ | ⟨n, e, woken, -, hc, -, -⟩
  · exact absurd h.callback (by simp [hnil])
  · rw [← hc] at hgone
    rw [hrun, (extends_run _ post).wakes _ hgone,
      Loop.runCallback_wakesOf (ordered_loopAfter _) h.callback h.key]

/-- Every report envelope of a run goes exactly one way exactly when the table says
the same at its enqueue and at its callback: a future listed at the first is there and
pending at the second, and none listed at the first, none pending at the second. -/
theorem reports_delivered_once_iff (ops : List ForwarderOp) :
    (∀ pre mid env channelId key, Delivery ops pre mid env channelId key →
        OneWay (loopAfter ops) (loopAfter pre).ticket env channelId) ↔
      ∀ pre mid env channelId key, Delivery ops pre mid env channelId key →
        ((loopAfter pre).fwd.listenersOf key ≠ [] ↔
          (loopAfter (pre ++ .enqueue env channelId :: mid)).fwd.waiting key ≠ []) := by
  have hone : ∀ {pre mid env channelId key}, Delivery ops pre mid env channelId key →
      (OneWay (loopAfter ops) (loopAfter pre).ticket env channelId ↔
        ((loopAfter pre).fwd.listenersOf key ≠ [] ↔
          (loopAfter (pre ++ .enqueue env channelId :: mid)).fwd.waiting key ≠ [])) := by
    intro pre mid env channelId key h
    rw [OneWay, Ne, h.wakes, h.sends, xor_iff_not_iff]
    by_cases hl : (loopAfter pre).fwd.listenersOf key = [] <;> simp [hl]
  constructor
  · intro h pre mid env channelId key hd
    exact (hone hd).1 (h pre mid env channelId key hd)
  · intro h pre mid env channelId key hd
    exact (hone hd).2 (h pre mid env channelId key hd)

def positionsReport : EventEnvelope :=
  ⟨"tinohelm.report.positions", .dict [(.str "strategy_id", .str "h")]⟩

/-- Two replies of one pod in a batch, and one operator waiting. -/
def twoReplies : List ForwarderOp :=
  [.watch "tinohelm.report.positions" "h", .enqueue positionsReport 3, .enqueue positionsReport 3,
    .callback, .callback]

theorem second_reply_is_lost :
    ¬ ∀ pre mid env channelId key, Delivery twoReplies pre mid env channelId key →
      OneWay (loopAfter twoReplies) (loopAfter pre).ticket env channelId := by
  intro h
  have hd : Delivery twoReplies
      [.watch "tinohelm.report.positions" "h", .enqueue positionsReport 3] [.callback]
      positionsReport 3 ("tinohelm.report.positions", .str "h") :=
    ⟨⟨[], rfl⟩, by decide, rfl, rfl⟩
  have hone := h _ _ _ _ _ hd
  rw [OneWay, Ne, hd.wakes, hd.sends] at hone
  -- a future is listed at the enqueue and none is left at the callback
  rcases hone with ⟨hs, -⟩ | ⟨hw, -⟩
  · exact absurd (congrArg List.length hs) (by decide)
  · exact hw (by decide)

end TinoHelm

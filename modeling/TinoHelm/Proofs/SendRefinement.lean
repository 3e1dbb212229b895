import TinoHelm.Proofs.SendSlots

/-! The tasks with `asyncio.Semaphore` do nothing that the sender of `Spec.Sending` does
not: where a semaphore lets a task pass, fewer sends than `rate_limit` are in flight on
the channel. What holds in every run of the sender holds for the tasks. -/

namespace TinoHelm
open Base

variable {py : PyText} {fmt : Formatters} {dec : Decoders} {ch : Channels}

theorem Sender.at?_of_phase {s : Sender} {n : ℕ} {p : SendPhase} (h : s.phases n = p) :
    s.at? n p = s.loop.sends[n]? :=
  if_pos h

theorem Sender.at?_of_ne {s : Sender} {n : ℕ} {p : SendPhase} (h : s.phases n ≠ p) :
    s.at? n p = none :=
  if_neg h

/-- A task that looks for its channel has not started for the sender. -/
def TaskPhase.toSend : TaskPhase → SendPhase
  | queued | looking => .queued
  | acquiring => .waiting
  | sending => .sending
  | done _ => .done

theorem toSend_eq_sending {p : TaskPhase} : p.toSend = .sending ↔ p = .sending := by
  cases p <;> simp [TaskPhase.toSend]

namespace SendTasks

/-- The tasks without their semaphores. -/
def toSender (s : SendTasks) : Sender where
  loop := s.loop
  tracker := s.tracker
  rateLimit := s.rateLimit
  phases n := (s.phases n).toSend
  embeds := s.embeds

/-- A semaphore that is not locked lets the task render at once. -/
def renderOps (s : SendTasks) (n : ℕ) (call : Sent) : List SenderOp :=
  if (s.semaphoreFor call.channelId).locked then [] else [.render n]

/-- What the sender does when the tasks take a step. -/
def senderOps (s : SendTasks) : SendTaskOp → List SenderOp
  | .intake src registry => [.intake src registry]
  | .forwarder op => [.forwarder op]
  | .attachClient => []
  | .start cached =>
    match s.loop.sends[s.started]? with
    | none => []
    | some call =>
      if !s.client then [.start s.started .noClient]
      else if cached then .start s.started .cached :: s.renderOps s.started call
      else []
  | .fetched n answer =>
    match s.at? n .looking with
    | none => []
    | some call =>
      if answer = .ok then .start n .fetched :: s.renderOps n call
      else [.start n .fetchFailed]
  | .resume c => ((s.semaphoreFor c).woken.head?.map SenderOp.render).toList
  | .sent n answer => [.sent n (if answer = .ok then .ok else .httpException)]

variable {s : SendTasks} {n : ℕ} {call : Sent} {c : ℤ}

@[simp] theorem toSender_setSemaphore (sem : Semaphore ℕ) :
    (s.setSemaphore c sem).toSender = s.toSender := rfl

@[simp] theorem toSender_release : (s.release c).toSender = s.toSender := rfl

theorem toSender_setPhase (p : TaskPhase) :
    (s.setPhase n p).toSender = s.toSender.setPhase n p.toSend := by
  unfold toSender setPhase Sender.setPhase
  congr 1
  funext m
  by_cases hm : m = n
  · subst hm
    simp
  · simp [Function.update_of_ne hm]

theorem toSender_begin (h : s.Permitted) : s.begin.toSender = s.toSender := by
  have hphases : (fun n => (s.begin.phases n).toSend) = fun n => (s.phases n).toSend := by
    funext m
    by_cases hm : m = s.started
    · subst hm
      rw [(h.idle s.started).2 le_rfl]
      simp [begin, setPhase, TaskPhase.toSend]
    · simp [begin, setPhase, Function.update_of_ne hm]
  exact congrArg (fun phases => { s.toSender with phases }) hphases

theorem at?_toSender {p : TaskPhase} (hat : s.at? n p = some call) :
    s.toSender.at? n p.toSend = some call := by
  obtain ⟨hphase, hcall⟩ := at?_eq_some.1 hat
  exact (Sender.at?_of_phase (congrArg TaskPhase.toSend hphase)).trans hcall

theorem at?_sending : s.toSender.at? n .sending = s.at? n .sending := by
  by_cases hp : s.phases n = .sending
  · exact (Sender.at?_of_phase (toSend_eq_sending.2 hp)).trans (if_pos hp).symm
  · exact (Sender.at?_of_ne (mt toSend_eq_sending.1 hp)).trans (if_neg hp).symm

/-- The sender counts the sends that are in flight. -/
theorem free_toSender (h : s.Permitted) (c : ℤ) :
    s.toSender.free c = decide ((s.sendingOn c).card < s.rateLimit) := by
  have hcard : ((List.range s.loop.sends.length).filter fun n =>
      (s.toSender.at? n .sending).any (·.channelId = c)).length = (s.sendingOn c).card := by
    rw [← List.toFinset_card_of_nodup (List.nodup_range.filter _)]
    congr 1
    ext m
    simp only [List.mem_toFinset, List.mem_filter, List.mem_range, sendingOn, Finset.mem_filter,
      Finset.mem_range]
    have hat : (s.toSender.at? m .sending).any (·.channelId = c) = true ↔
        s.phases m = .sending ∧ s.isOn m c = true := by
      rw [at?_sending, at?, isOn]
      split_ifs with hp <;> simp [hp]
    rw [hat]
    constructor
    · exact fun hm => ⟨h.lt_started hm.2.1 (by simp), hm.2⟩
    · exact fun hm => ⟨hm.1.trans_le h.begun, hm.2⟩
  unfold Sender.free
  rw [← hcard]
  rfl

theorem free_of_permits (h : s.Permitted) (hp : 0 < (s.semaphoreFor c).permits) :
    s.toSender.free c = true := by
  have := h.permits c
  rw [free_toSender h, decide_eq_true_iff]
  omega

theorem post_ok {embed : Embed}
    (hr : renderEmbed py fmt call.env none (some s.tracker) = .ok embed) :
    s.post py fmt n call =
      { s.setPhase n .sending with embeds := s.embeds ++ [(n, embed)] } := by
  rw [post, hr]

theorem post_error {e : PyError}
    (hr : renderEmbed py fmt call.env none (some s.tracker) = .error e) :
    s.post py fmt n call = (s.release call.channelId).setPhase n (.done .renderRaised) := by
  rw [post, hr]

/-- A task behind the semaphore is a call of the sender that renders. -/
theorem render_toSender (hphase : s.phases n ≠ .sending) (hcall : s.loop.sends[n]? = some call)
    (hfree : s.toSender.free call.channelId = true) (sem : Semaphore ℕ) :
    senderStep py fmt dec ch (s.toSender.setPhase n .waiting) (.render n) =
      ((s.setSemaphore call.channelId sem).post py fmt n call).toSender := by
  have hat : (s.toSender.setPhase n .waiting).at? n .waiting = some call :=
    (Sender.at?_of_phase (Function.update_self _ _ _)).trans hcall
  have hfree' : (s.toSender.setPhase n .waiting).free call.channelId = true := by
    have hsame : ∀ m, (s.toSender.setPhase n .waiting).at? m .sending = s.toSender.at? m .sending := by
      intro m
      by_cases hm : m = n
      · subst hm
        have hne : s.toSender.phases m ≠ .sending := mt toSend_eq_sending.1 hphase
        rw [Sender.at?_of_ne hne, Sender.at?_of_ne (by simp [Sender.setPhase])]
      · simp [Sender.at?, Sender.setPhase, Function.update_of_ne hm]
    unfold Sender.free at hfree ⊢
    simp only [hsame]
    exact hfree
  have htwice : ∀ p, (s.toSender.setPhase n .waiting).setPhase n p = s.toSender.setPhase n p :=
    fun p => by simp [Sender.setPhase]
  have htracker : (s.toSender.setPhase n .waiting).tracker = s.tracker := rfl
  simp only [senderStep, hat, hfree', if_true, htracker]
  cases hr : renderEmbed py fmt call.env none (some s.tracker) with
  | ok embed =>
    rw [@post_ok py fmt (s.setSemaphore call.channelId sem) n call embed hr]
    dsimp only
    rw [htwice]
    exact congrArg (fun t : Sender => { t with embeds := s.embeds ++ [(n, embed)] })
      (@toSender_setPhase s n .sending).symm
  | error e =>
    rw [@post_error py fmt (s.setSemaphore call.channelId sem) n call e hr, toSender_setPhase]
    exact htwice .done

theorem acquire_toSender (h : s.Permitted) (hat : s.at? n .looking = some call) :
    (s.acquire py fmt n call).toSender =
      run (senderStep py fmt dec ch) (s.toSender.setPhase n .waiting) (s.renderOps n call) := by
  obtain ⟨hphase, hcall⟩ := at?_eq_some.1 hat
  unfold acquire renderOps
  dsimp only
  split
  · rw [run_nil, toSender_setPhase]
    rfl
  · rename_i hlocked
    rw [run_cons, run_nil]
    rw [Bool.not_eq_true] at hlocked
    have hpermits := Semaphore.permits_take hlocked
    refine (render_toSender ?_ hcall (free_of_permits h (by omega)) _).symm
    rw [hphase]
    decide

theorem start_toSender {lookup : ChannelLookup} (hat : s.toSender.at? n .queued = some call) :
    senderStep py fmt dec ch s.toSender (.start n lookup) =
      s.toSender.setPhase n (if lookup.found then .waiting else .done) := by
  simp only [senderStep, hat]

theorem toSender_start (h : s.Permitted) (cached : Bool) :
    (sendTasksStep py fmt dec ch s (.start cached)).toSender =
      run (senderStep py fmt dec ch) s.toSender (s.senderOps (.start cached)) := by
  simp only [sendTasksStep, senderOps]
  cases hcall : s.loop.sends[s.started]? with
  | none => rfl
  | some call =>
    have hbegin := toSender_begin h
    have hat : s.begin.at? s.started .looking = some call :=
      at?_eq_some.2 ⟨Function.update_self _ _ _, hcall⟩
    have hqueued : s.toSender.at? s.started .queued = some call := hbegin ▸ at?_toSender hat
    dsimp only
    split_ifs
    · rw [run_cons, run_nil, start_toSender hqueued, toSender_setPhase, hbegin]
      rfl
    · rw [run_cons, start_toSender hqueued,
        acquire_toSender (h.begin (List.getElem?_eq_some_iff.1 hcall).1) hat, hbegin]
      rfl
    · exact hbegin

theorem toSender_resume (h : s.Permitted) (c : ℤ) :
    (sendTasksStep py fmt dec ch s (.resume c)).toSender =
      run (senderStep py fmt dec ch) s.toSender (s.senderOps (.resume c)) := by
  simp only [sendTasksStep, senderOps]
  cases hw : (s.semaphoreFor c).woken.head? with
  | none => rfl
  | some n =>
    obtain ⟨rest, hrest⟩ := List.head?_eq_some_iff.1 hw
    have hmem : n ∈ (s.semaphoreFor c).queue := by
      rw [Semaphore.queue_of_woken hrest]
      exact List.mem_cons_self
    obtain ⟨hphase, -⟩ := (h.queue c n).1 hmem
    obtain ⟨call, hcall⟩ : ∃ call, s.loop.sends[n]? = some call :=
      ⟨_, List.getElem?_eq_getElem ((h.lt_started hphase (by simp)).trans_le h.begun)⟩
    have hat := at?_eq_some.2 ⟨hphase, hcall⟩
    obtain ⟨rfl, -⟩ := resume_head h hw hat
    have hpermits := Semaphore.permits_resume (List.ne_nil_of_mem (List.mem_of_mem_head? hw))
    have hwaiting : s.toSender.setPhase n .waiting = s.toSender :=
      congrArg (fun phases => { s.toSender with phases })
        (Function.update_eq_self_iff.2 (congrArg TaskPhase.toSend hphase).symm)
    have hrender := @render_toSender py fmt dec ch s n call (by simp [hphase]) hcall
      (free_of_permits h (by omega)) (s.semaphoreFor call.channelId).resume
    rw [hwaiting] at hrender
    simp only [hat]
    exact hrender.symm

theorem toSender_sent (n : ℕ) {answer : Answer} (hanswer : answer ≠ .raised) :
    (sendTasksStep py fmt dec ch s (.sent n answer)).toSender =
      run (senderStep py fmt dec ch) s.toSender (s.senderOps (.sent n answer)) := by
  simp only [sendTasksStep, senderOps, run_cons, run_nil, senderStep, at?_sending]
  cases s.at? n .sending with
  | none => rfl
  | some call =>
    dsimp only
    rw [if_neg hanswer]
    have hset := @toSender_setPhase (s.release call.channelId) n (.done (.answered answer))
    exact congrArg (fun t : Sender =>
      { t with tracker := (s.tracker.forgetIfTerminal call.env.body).1 }) hset

theorem toSender_step (h : s.Permitted) {op : SendTaskOp} (hop : ∀ n, op ≠ .sent n .raised) :
    (sendTasksStep py fmt dec ch s op).toSender =
      run (senderStep py fmt dec ch) s.toSender (s.senderOps op) := by
  cases op with
  | intake src registry =>
    have htracker : s.toSender.tracker = s.tracker := rfl
    simp only [sendTasksStep, senderOps, run_cons, run_nil, senderStep, htracker]
    rcases (src.take dec (some s.tracker) registry ch).result with e | _ | call
    · rfl
    · rfl
    · rfl
  | forwarder op => rfl
  | attachClient => rfl
  | start cached => exact toSender_start h cached
  | fetched n answer =>
    simp only [sendTasksStep, senderOps]
    cases hat : s.at? n .looking with
    | none => rfl
    | some call =>
      have hqueued := at?_toSender hat
      dsimp only
      split_ifs
      · rw [run_cons, start_toSender hqueued, acquire_toSender h hat]
        rfl
      · rw [run_cons, run_nil, start_toSender hqueued, toSender_setPhase]
        rfl
  | resume c => exact toSender_resume h c
  | sent n answer => exact toSender_sent n fun he => hop n (he ▸ rfl)

end SendTasks

/-- Every run of the tasks in which `channel.send` raises nothing but `HTTPException` is
a run of the sender, with the same intakes. -/
theorem tasks_refine_sender (rateLimit : ℕ) (ops : List SendTaskOp)
    (hops : ∀ n, SendTaskOp.sent n .raised ∉ ops) :
    (run (sendTasksStep py fmt dec ch) { rateLimit := rateLimit } ops).toSender =
      run (senderStep py fmt dec ch) { rateLimit := rateLimit }
        (trace (sendTasksStep py fmt dec ch) SendTasks.senderOps { rateLimit := rateLimit } ops) := by
  induction ops using List.reverseRecOn with
  | nil => rfl
  | append_singleton ops op ih =>
    simp only [List.mem_append, List.mem_singleton, not_or] at hops
    rw [run_snoc, trace_snoc, run_append, ← ih fun n => (hops n).1]
    exact SendTasks.toSender_step (SendTasks.permitted_run rateLimit ops) fun n =>
      Ne.symm (hops n).2

/-- Two calls for one channel with a single slot, the second one behind the first. -/
theorem tasks_refine_sender_pair :
    let call := SendTaskOp.forwarder (.enqueue ⟨"tinohelm.message", .dict []⟩ 7)
    let ops := [.attachClient, call, call, .start true, .start true, .sent 0 .ok, .resume 7]
    (run (sendTasksStep plainText noFormatters textDecoders ⟨1, 2, 3⟩) { rateLimit := 1 }
        ops).toSender =
      run (senderStep plainText noFormatters textDecoders ⟨1, 2, 3⟩) { rateLimit := 1 }
        (trace (sendTasksStep plainText noFormatters textDecoders ⟨1, 2, 3⟩) SendTasks.senderOps
          { rateLimit := 1 } ops) :=
  tasks_refine_sender 1 _ (by simp)

end TinoHelm

import Mathlib.Data.List.Sort
import TinoHelm.Proofs.SendSlots

/-! The order of what a channel gets. As long as the client's cache knows the channels,
the calls for a channel reach `channel.send` in the order `enqueue` scheduled them in:
the line for the slots of a channel keeps it. -/

namespace TinoHelm
open Base

variable {py : PyText} {fmt : Formatters} {dec : Decoders} {ch : Channels}

namespace SendTasks

/-- The calls handed to `channel.send` for the channel, in this order. -/
def postsOn (s : SendTasks) (channelId : ℤ) : List ℕ :=
  (s.embeds.map Prod.fst).filter fun n => s.isOn n channelId

/-- What the channel was sent and, behind it, who stands in line for it. -/
def line (s : SendTasks) (channelId : ℤ) : List ℕ :=
  s.postsOn channelId ++ (s.semaphoreFor channelId).queue

structure InLine (s : SendTasks) : Prop where
  found : ∀ n, s.phases n ≠ .looking
  sorted : ∀ c, (s.line c).Pairwise (· < ·)

variable {s s' : SendTasks} {n : ℕ} {call : Sent}

theorem mem_postsOn (h : s.Permitted) (c : ℤ) :
    n ∈ s.postsOn c ↔ (s.phases n).posted = true ∧ s.isOn n c := by
  rw [postsOn, List.mem_filter, ← List.count_pos_iff, h.posted]
  refine and_congr_left fun _ => ?_
  split_ifs with hp <;> simp [hp]

theorem lt_started_of_line (h : s.Permitted) {c : ℤ} (hn : n ∈ s.line c) : n < s.started := by
  by_contra hlt
  have hidle := (h.idle n).2 (not_lt.1 hlt)
  rcases List.mem_append.1 hn with hm | hm
  · have := ((mem_postsOn h c).1 hm).1
    rw [hidle] at this
    cases this
  · have := ((h.queue c n).1 hm).1
    rw [hidle] at this
    cases this

theorem line_post (hcall : s.loop.sends[n]? = some call) (sem : Semaphore ℕ) (c : ℤ) :
    (((s.setSemaphore call.channelId sem).post py fmt n call).line c).Sublist
      (if c = call.channelId then s.postsOn c ++ n :: sem.queue else s.line c) := by
  have hon := isOn_of_getElem hcall c
  unfold post
  split
  · rename_i embed _
    have hline : ({ (s.setSemaphore call.channelId sem).setPhase n .sending with
        embeds := s.embeds ++ [(n, embed)] } : SendTasks).line c =
          ((s.embeds.map Prod.fst ++ [n]).filter fun m => s.isOn m c) ++
            (if c = call.channelId then sem else s.semaphoreFor c).queue := by
      rw [← semaphoreFor_setSemaphore call.channelId c sem, line, postsOn, List.map_append]
      rfl
    refine hline.symm ▸ ?_
    rw [List.filter_append]
    split_ifs with hc
    · subst hc
      simp [hon, postsOn]
    · simp [hon, Ne.symm hc, line, postsOn]
  · have hline : (((s.setSemaphore call.channelId sem).release call.channelId).setPhase n
        (.done .renderRaised)).line c =
          s.postsOn c ++ (if c = call.channelId then sem else s.semaphoreFor c).queue := by
      rw [line, semaphoreFor_setPhase, semaphoreFor_release]
      simp only [semaphoreFor_setSemaphore, if_true]
      split_ifs with hc
      · rw [Semaphore.queue_release]
        rfl
      · rfl
    rw [hline]
    split_ifs with hc
    · exact List.Sublist.append_left (List.sublist_cons_self _ _) _
    · exact List.Sublist.refl _

/-- A task that has found its channel stands behind everybody else. -/
theorem line_acquire (hcall : s.loop.sends[n]? = some call) (c : ℤ) :
    ((s.acquire py fmt n call).line c).Sublist (s.line c ++ [n]) := by
  unfold acquire
  dsimp only
  split
  · rename_i hlocked
    rw [line, semaphoreFor_setPhase, semaphoreFor_setSemaphore]
    split_ifs with hc
    · subst hc
      rw [Semaphore.queue_wait, ← List.append_assoc]
      exact List.Sublist.refl _
    · exact List.sublist_append_left _ _
  · rename_i hlocked
    rw [Bool.not_eq_true] at hlocked
    refine (line_post hcall _ c).trans ?_
    split_ifs with hc
    · subst hc
      rw [Semaphore.queue_take, Semaphore.queue_of_unlocked hlocked, line,
        Semaphore.queue_of_unlocked hlocked, List.append_nil]
    · exact List.sublist_append_left _ _

theorem Advance.found {p : TaskPhase} (ha : Advance s s' n p) (hp : p ≠ .looking)
    (h : ∀ m, m ≠ n → s.phases m ≠ .looking) (m : ℕ) : s'.phases m ≠ .looking := by
  rw [ha.phases, Function.update_apply]
  split_ifs with hm
  · exact hp
  · exact h m hm

/-- New calls stand in no line yet. -/
theorem line_frame (h : s.Permitted) {loop : Loop} (hl : s.loop.sends <+: loop.sends)
    (tracker : OrderProgressTracker) (client : Bool) (c : ℤ) :
    ({ s with loop, tracker, client } : SendTasks).line c = s.line c := by
  refine congrArg (· ++ _) (List.filter_congr fun m hm => ?_)
  have hposted := List.count_pos_iff.2 hm
  rw [h.posted] at hposted
  have hlt : m < s.started := by
    by_contra hlt
    rw [(h.idle m).2 (not_lt.1 hlt)] at hposted
    cases hposted
  exact isOn_of_prefix hl (hlt.trans_le h.begun) c

theorem inLine_start (h : s.Permitted) (hi : s.InLine) :
    (sendTasksStep py fmt dec ch s (.start true)).InLine := by
  simp only [sendTasksStep]
  split
  · exact hi
  · rename_i call hcall
    have hothers : ∀ m, m ≠ s.started → s.begin.phases m ≠ .looking := fun m hm => by
      change Function.update s.phases s.started .looking m ≠ .looking
      rw [Function.update_of_ne hm]
      exact hi.found m
    split_ifs
    · have ha : Advance s.begin (s.begin.setPhase s.started (.done .noClient)) s.started
          (.done .noClient) := ⟨rfl, rfl, rfl, rfl⟩
      exact ⟨ha.found (by simp) hothers, hi.sorted⟩
    · refine ⟨?_, fun c => List.Pairwise.sublist (@line_acquire py fmt s.begin _ _ hcall c) ?_⟩
      · obtain ha | ha | ha := acquire_advance py fmt s.begin s.started call
        · exact ha.found (by simp) hothers
        · exact ha.found (by simp) hothers
        · exact ha.found (by simp) hothers
      · refine List.pairwise_append.2 ⟨hi.sorted c, List.pairwise_singleton _ _, fun m hm k hk => ?_⟩
        rw [List.mem_singleton.1 hk]
        exact lt_started_of_line h hm

theorem inLine_resume (h : s.Permitted) (hi : s.InLine) (d : ℤ) :
    (sendTasksStep py fmt dec ch s (.resume d)).InLine := by
  simp only [sendTasksStep]
  split
  · exact hi
  · rename_i n hwoken
    split
    · exact hi
    · rename_i call hat
      obtain ⟨rfl, rest, hrest⟩ := resume_head h hwoken hat
      refine ⟨?_, fun c => List.Pairwise.sublist (line_post (at?_eq_some.1 hat).2 _ c) ?_⟩
      · obtain ha | ha := post_advance py fmt
          (s.setSemaphore call.channelId (s.semaphoreFor call.channelId).resume) n call
        · exact ha.found (by simp) fun m _ => hi.found m
        · exact ha.found (by simp) fun m _ => hi.found m
      · split_ifs with hc
        · subst hc
          have hsorted := hi.sorted call.channelId
          rw [line, Semaphore.queue_of_woken hrest] at hsorted
          rw [Semaphore.queue_resume (by simp [hrest])]
          exact hsorted
        · exact hi.sorted c

theorem inLine_sent (hi : s.InLine) (n : ℕ) (answer : Answer) :
    (sendTasksStep py fmt dec ch s (.sent n answer)).InLine := by
  simp only [sendTasksStep]
  split
  · exact hi
  · rename_i call hat
    have ha : Advance s ((s.release call.channelId).setPhase n (.done (.answered answer))) n
        (.done (.answered answer)) := ⟨rfl, rfl, rfl, rfl⟩
    have hdone : ((s.release call.channelId).setPhase n (.done (.answered answer))).InLine := by
      refine ⟨ha.found (by simp) fun m _ => hi.found m, fun c => ?_⟩
      rw [line, semaphoreFor_setPhase, semaphoreFor_release]
      split_ifs with hc
      · subst hc
        rw [Semaphore.queue_release]
        exact hi.sorted call.channelId
      · exact hi.sorted c
    split_ifs
    · exact hdone
    · exact ⟨hdone.found, hdone.sorted⟩

theorem inLine_step (h : s.Permitted) (hi : s.InLine) {op : SendTaskOp}
    (hop : op ≠ .start false) : (sendTasksStep py fmt dec ch s op).InLine := by
  cases op with
  | intake src registry =>
    simp only [sendTasksStep]
    split
    · refine ⟨hi.found, fun c => ?_⟩
      rw [line_frame h (s.loop.sends_tryEnqueue _ _)]
      exact hi.sorted c
    · exact ⟨hi.found, hi.sorted⟩
  | forwarder op =>
    refine ⟨hi.found, fun c => ?_⟩
    have := line_frame h (s.loop.sends_forwarderStep op) s.tracker s.client c
    exact this.symm ▸ hi.sorted c
  | attachClient => exact ⟨hi.found, hi.sorted⟩
  | start cached =>
    cases cached with
    | false => exact absurd rfl hop
    | true => exact inLine_start h hi
  | fetched n answer =>
    simp only [sendTasksStep]
    split
    · exact hi
    · rename_i call hat
      exact absurd (at?_eq_some.1 hat).1 (hi.found n)
  | resume d => exact inLine_resume h hi d
  | sent n answer => exact inLine_sent hi n answer

theorem inLine_run (rateLimit : ℕ) {ops : List SendTaskOp} (hops : SendTaskOp.start false ∉ ops) :
    (run (sendTasksStep py fmt dec ch) { rateLimit := rateLimit } ops).InLine := by
  induction ops using List.reverseRecOn with
  | nil => exact ⟨by simp, fun c => by simp [line, postsOn, semaphoreFor]⟩
  | append_singleton ops op ih =>
    simp only [List.mem_append, List.mem_singleton, not_or] at hops
    rw [run_snoc]
    exact inLine_step (permitted_run rateLimit ops) (ih hops.1) (Ne.symm hops.2)

end SendTasks

/-- A channel that the client's cache knows gets the events in the order they were
scheduled in: those whose renderer did not raise, each of them once. -/
theorem posted_in_order (rateLimit : ℕ) (ops : List SendTaskOp)
    (hops : SendTaskOp.start false ∉ ops) (channelId : ℤ) :
    let s := run (sendTasksStep py fmt dec ch) { rateLimit := rateLimit } ops
    s.postsOn channelId = (List.range s.started).filter fun n =>
      (s.phases n).posted && s.isOn n channelId := by
  intro s
  have h : s.Permitted := SendTasks.permitted_run rateLimit ops
  have hi : s.InLine := SendTasks.inLine_run rateLimit hops
  refine List.Pairwise.eq_of_mem_iff (List.pairwise_append.1 (hi.sorted channelId)).1
    (List.pairwise_lt_range.filter _) fun n => ?_
  rw [SendTasks.mem_postsOn h, List.mem_filter, List.mem_range, Bool.and_eq_true]
  refine ⟨fun hn => ⟨h.lt_started rfl fun hq => ?_, hn⟩, fun hn => hn.2⟩
  rw [hq] at hn
  cases hn.1

/-- Two calls for one channel with a single slot. -/
theorem posted_in_order_pair :
    let call := SendTaskOp.forwarder (.enqueue ⟨"tinohelm.message", .dict []⟩ 7)
    let ops := [.attachClient, call, call, .start true, .start true]
    let s := run (sendTasksStep plainText noFormatters textDecoders ⟨1, 2, 3⟩) { rateLimit := 1 } ops
    SendTaskOp.start false ∉ ops ∧ s.postsOn 7 = (List.range s.started).filter fun n =>
      (s.phases n).posted && s.isOn n 7 :=
  ⟨by simp, posted_in_order 1 _ (by simp) 7⟩

end TinoHelm

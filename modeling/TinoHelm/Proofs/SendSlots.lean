import Mathlib.Data.Finset.Card
import Mathlib.Data.Finset.Range
import TinoHelm.Spec.SendTasks

/-! The slots of a channel are never lost: whatever the tasks of `_send` do and however
what they await ends, the free slots of the channel's semaphore, those on their way to
a woken task and the sends in flight add up to `rate_limit`. -/

namespace TinoHelm
open Base

variable {py : PyText} {fmt : Formatters} {dec : Decoders} {ch : Channels}

namespace SendTasks

def isOn (s : SendTasks) (n : ℕ) (channelId : ℤ) : Bool :=
  (s.loop.sends[n]?).any (·.channelId = channelId)

def sendingOn (s : SendTasks) (channelId : ℤ) : Finset ℕ :=
  (Finset.range s.started).filter fun n => s.phases n = .sending ∧ s.isOn n channelId

structure Permitted (s : SendTasks) : Prop where
  begun : s.started ≤ s.loop.sends.length
  idle : ∀ n, s.phases n = .queued ↔ s.started ≤ n
  queue : ∀ c n, n ∈ (s.semaphoreFor c).queue ↔ s.phases n = .acquiring ∧ s.isOn n c
  nodup : ∀ c, (s.semaphoreFor c).queue.Nodup
  permits : ∀ c, (s.semaphoreFor c).permits + (s.sendingOn c).card = s.rateLimit
  posted : ∀ n, (s.embeds.map Prod.fst).count n = if (s.phases n).posted then 1 else 0

theorem permitted_init (rateLimit : ℕ) : Permitted { rateLimit := rateLimit } where
  begun := Nat.zero_le _
  idle n := by simp
  queue c n := by simp [semaphoreFor]
  nodup c := by simp [semaphoreFor]
  permits c := by simp [semaphoreFor, sendingOn]
  posted n := by simp [TaskPhase.posted]

variable {s s' : SendTasks} {n : ℕ} {call : Sent}

theorem isOn_of_getElem (h : s.loop.sends[n]? = some call) (c : ℤ) :
    s.isOn n c = decide (call.channelId = c) := by
  simp [isOn, h]

theorem isOn_of_prefix (h : s.loop.sends <+: s'.loop.sends) (hn : n < s.loop.sends.length) (c : ℤ) :
    s'.isOn n c = s.isOn n c := by
  obtain ⟨more, hmore⟩ := h
  rw [isOn, ← hmore, List.getElem?_append_left hn]
  rfl

theorem at?_eq_some {phase : TaskPhase} :
    s.at? n phase = some call ↔ s.phases n = phase ∧ s.loop.sends[n]? = some call := by
  unfold at?
  split_ifs with h <;> simp [h]

@[simp] theorem semaphoreFor_setSemaphore (c d : ℤ) (sem : Semaphore ℕ) :
    (s.setSemaphore c sem).semaphoreFor d = if d = c then sem else s.semaphoreFor d := by
  unfold semaphoreFor setSemaphore
  rw [Dict.get?_set]
  by_cases h : d = c
  · simp [h]
  · simp [h]

@[simp] theorem semaphoreFor_release (c d : ℤ) :
    (s.release c).semaphoreFor d =
      if d = c then (s.semaphoreFor c).release else s.semaphoreFor d :=
  semaphoreFor_setSemaphore c d _

@[simp] theorem semaphoreFor_setPhase (p : TaskPhase) (d : ℤ) :
    (s.setPhase n p).semaphoreFor d = s.semaphoreFor d := rfl

/-- Scheduling a call, feeding the tracker and attaching the client touch no task. -/
theorem Permitted.frame (h : Permitted s) {loop : Loop} (hl : s.loop.sends <+: loop.sends)
    (tracker : OrderProgressTracker) (client : Bool) :
    Permitted { s with loop, tracker, client } := by
  have hon : ∀ m c, m < s.started →
      ({ s with loop, tracker, client } : SendTasks).isOn m c = s.isOn m c := fun m c hm =>
    isOn_of_prefix hl (hm.trans_le h.begun) c
  refine ⟨h.begun.trans hl.length_le, h.idle, fun c m => ?_, h.nodup, fun c => ?_, h.posted⟩
  · refine (h.queue c m).trans (and_congr_right fun hp => ?_)
    have hm : m < s.started := by
      by_contra hm
      rw [(h.idle m).2 (not_lt.1 hm)] at hp
      cases hp
    rw [hon m c hm]
  · have hset : ({ s with loop, tracker, client } : SendTasks).sendingOn c = s.sendingOn c := by
      refine Finset.filter_congr fun m hm => ?_
      rw [hon m c (Finset.mem_range.1 hm)]
    rw [hset]
    exact h.permits c

/-- The task of call `n` has moved on to `p`; no other task has moved. -/
structure Advance (s s' : SendTasks) (n : ℕ) (p : TaskPhase) : Prop where
  loop : s'.loop = s.loop
  rateLimit : s'.rateLimit = s.rateLimit
  started : s'.started = s.started
  phases : s'.phases = Function.update s.phases n p

theorem Advance.isOn {p : TaskPhase} (ha : Advance s s' n p) (m : ℕ) (c : ℤ) :
    s'.isOn m c = s.isOn m c := by
  rw [SendTasks.isOn, ha.loop, SendTasks.isOn]

theorem post_advance (py : PyText) (fmt : Formatters) (s : SendTasks) (n : ℕ) (call : Sent) :
    Advance s (s.post py fmt n call) n .sending ∨
      Advance s (s.post py fmt n call) n (.done .renderRaised) := by
  unfold post
  split
  · exact Or.inl ⟨rfl, rfl, rfl, rfl⟩
  · exact Or.inr ⟨rfl, rfl, rfl, rfl⟩

theorem acquire_advance (py : PyText) (fmt : Formatters) (s : SendTasks) (n : ℕ) (call : Sent) :
    Advance s (s.acquire py fmt n call) n .acquiring ∨
      Advance s (s.acquire py fmt n call) n .sending ∨
      Advance s (s.acquire py fmt n call) n (.done .renderRaised) := by
  unfold acquire
  dsimp only
  split
  · exact Or.inl ⟨rfl, rfl, rfl, rfl⟩
  · obtain h | h := post_advance py fmt (s.setSemaphore call.channelId
      (s.semaphoreFor call.channelId).take) n call
    · exact Or.inr (Or.inl ⟨h.loop, h.rateLimit, h.started, h.phases⟩)
    · exact Or.inr (Or.inr ⟨h.loop, h.rateLimit, h.started, h.phases⟩)

theorem card_sendingOn (hcall : s.loop.sends[n]? = some call) (hn : n < s.started)
    {p : TaskPhase} (ha : Advance s s' n p) (c : ℤ) :
    (s'.sendingOn c).card + (if s.phases n = .sending ∧ call.channelId = c then 1 else 0) =
      (s.sendingOn c).card + (if p = .sending ∧ call.channelId = c then 1 else 0) := by
  have hon := fun m => ha.isOn m c
  have hp := ha.phases
  have hst := ha.started
  have herase : (s'.sendingOn c).erase n = (s.sendingOn c).erase n := by
    ext m
    simp only [sendingOn, Finset.mem_erase, Finset.mem_filter, Finset.mem_range, hst, hp, hon]
    refine and_congr_right fun hne => ?_
    rw [Function.update_of_ne hne]
  have hmem' : n ∈ s'.sendingOn c ↔ p = .sending ∧ call.channelId = c := by
    simp [sendingOn, hst, hn, hp, hon, isOn_of_getElem hcall]
  have hmem : n ∈ s.sendingOn c ↔ s.phases n = .sending ∧ call.channelId = c := by
    simp [sendingOn, hn, isOn_of_getElem hcall]
  have hcard (A : Finset ℕ) : (A.erase n).card + (if n ∈ A then 1 else 0) = A.card := by
    split_ifs with hA
    · exact Finset.card_erase_add_one hA
    · rw [Finset.erase_eq_of_notMem hA, Nat.add_zero]
  have h' := hcard (s'.sendingOn c)
  have h := hcard (s.sendingOn c)
  rw [herase] at h'
  simp only [hmem'] at h'
  simp only [hmem] at h
  omega

/-- One task moves on, and the semaphore of its channel with it. -/
theorem Permitted.move (h : Permitted s) (hcall : s.loop.sends[n]? = some call)
    (hn : n < s.started) {p : TaskPhase} (hp : p ≠ .queued) (ha : Advance s s' n p)
    (sem : Semaphore ℕ)
    (hsem : ∀ c, s'.semaphoreFor c = if c = call.channelId then sem else s.semaphoreFor c)
    (hnodup : sem.queue.Nodup)
    (hqueue : ∀ m, m ∈ sem.queue ↔
      if m = n then p = .acquiring else m ∈ (s.semaphoreFor call.channelId).queue)
    (hpermits : sem.permits + (if p = .sending then 1 else 0) =
      (s.semaphoreFor call.channelId).permits + (if s.phases n = .sending then 1 else 0))
    (hposted : ∀ m, (s'.embeds.map Prod.fst).count m =
      if m = n then if p.posted then 1 else 0 else (s.embeds.map Prod.fst).count m) :
    Permitted s' := by
  have hphase : ∀ m, s'.phases m = if m = n then p else s.phases m := fun m => by
    rw [ha.phases, Function.update_apply]
  refine ⟨?_, fun m => ?_, fun c m => ?_, fun c => ?_, fun c => ?_, fun m => ?_⟩
  · rw [ha.started, ha.loop]
    exact h.begun
  · rw [hphase, ha.started]
    split_ifs with hm
    · subst hm
      exact ⟨fun he => absurd he hp, fun hle => absurd hn (not_lt.2 hle)⟩
    · exact h.idle m
  · rw [hphase, ha.isOn, hsem]
    by_cases hc : c = call.channelId
    · subst hc
      rw [if_pos rfl, hqueue]
      split_ifs with hm
      · subst hm
        simp [isOn_of_getElem hcall]
      · exact h.queue _ m
    · rw [if_neg hc, h.queue]
      split_ifs with hm
      · -- the task's own channel is another one
        subst hm
        simp [isOn_of_getElem hcall, Ne.symm hc]
      · rfl
  · rw [hsem]
    split_ifs
    · exact hnodup
    · exact h.nodup c
  · have hcard := card_sendingOn hcall hn ha c
    have hold := h.permits c
    rw [ha.rateLimit, hsem]
    by_cases hc : c = call.channelId
    · subst hc
      simp only [and_true] at hcard
      rw [if_pos rfl]
      omega
    · simp only [Ne.symm hc, and_false, if_false] at hcard
      rw [if_neg hc]
      omega
  · rw [hposted, hphase]
    by_cases hm : m = n
    · rw [if_pos hm, if_pos hm]
    · rw [if_neg hm, if_neg hm]
      exact h.posted m

theorem Permitted.lt_started (h : Permitted s) {p : TaskPhase} (hp : s.phases n = p)
    (hq : p ≠ .queued) : n < s.started := by
  by_contra hn
  exact hq (hp.symm.trans ((h.idle n).2 (not_lt.1 hn)))

/-- A task that is not in line has posted nothing and holds no slot. -/
theorem Permitted.not_mem_queue (h : Permitted s) {p : TaskPhase} (hp : s.phases n = p)
    (ha : p ≠ .acquiring) (c : ℤ) : n ∉ (s.semaphoreFor c).queue := fun hm =>
  ha (hp.symm.trans ((h.queue c n).1 hm).1)

theorem Permitted.drop (h : Permitted s) {ending : TaskEnd} (hat : s.at? n .looking = some call)
    (he : (TaskPhase.done ending).posted = false) : Permitted (s.setPhase n (.done ending)) := by
  obtain ⟨hphase, hcall⟩ := at?_eq_some.1 hat
  refine h.move hcall (h.lt_started hphase nofun) (p := .done ending) nofun ⟨rfl, rfl, rfl, rfl⟩ _
    (fun c => ?_) (h.nodup call.channelId) (fun m => ?_) ?_ fun m => ?_
  · rw [semaphoreFor_setPhase]
    split_ifs with hc
    · rw [hc]
    · rfl
  · split_ifs with hm
    · subst hm
      simp [h.not_mem_queue hphase nofun]
    · rfl
  · simp [hphase]
  · split_ifs with hm hp
    · rw [he] at hp
      cases hp
    · simp [setPhase, hm, h.posted, hphase, TaskPhase.posted]
    · rfl

/-- A task that has just got a slot of `sem` renders, and sends or gives the slot back. -/
theorem Permitted.post (h : Permitted s) (hcall : s.loop.sends[n]? = some call)
    (hphase : s.phases n = .looking ∨ s.phases n = .acquiring) {sem : Semaphore ℕ}
    (hnodup : sem.queue.Nodup)
    (hqueue : ∀ m, m ∈ sem.queue ↔ m ≠ n ∧ m ∈ (s.semaphoreFor call.channelId).queue)
    (hpermits : sem.permits + 1 = (s.semaphoreFor call.channelId).permits) :
    Permitted ((s.setSemaphore call.channelId sem).post py fmt n call) := by
  have hn : n < s.started := by
    obtain hp | hp := hphase
    · exact h.lt_started hp nofun
    · exact h.lt_started hp nofun
  have hsend : s.phases n ≠ .sending := by
    obtain hp | hp := hphase <;> rw [hp] <;> nofun
  have hunposted : (s.embeds.map Prod.fst).count n = 0 := by
    rw [h.posted]
    obtain hp | hp := hphase <;> rw [hp] <;> rfl
  have hin : ∀ m, m ∈ sem.queue ↔
      if m = n then False else m ∈ (s.semaphoreFor call.channelId).queue := fun m => by
    rw [hqueue]
    by_cases hm : m = n <;> simp [hm]
  unfold SendTasks.post
  split
  · refine h.move hcall hn (p := .sending) nofun ⟨rfl, rfl, rfl, rfl⟩ sem
      (fun c => semaphoreFor_setSemaphore _ c sem) hnodup (fun m => ?_) ?_ fun m => ?_
    · rw [hin]
      simp
    · rw [if_neg hsend]
      simpa using hpermits
    · simp only [List.map_append, List.map_cons, List.map_nil, List.count_append,
        List.count_singleton']
      by_cases hm : m = n
      · subst hm
        simp [setSemaphore, hunposted, TaskPhase.posted]
      · simp [setSemaphore, hm, Ne.symm hm]
  · refine h.move hcall hn (p := .done .renderRaised) nofun ⟨rfl, rfl, rfl, rfl⟩ sem.release
      (fun c => ?_) ?_ (fun m => ?_) ?_ fun m => ?_
    · simp only [semaphoreFor_setPhase, semaphoreFor_release, semaphoreFor_setSemaphore]
      split_ifs <;> rfl
    · rw [Semaphore.queue_release]
      exact hnodup
    · rw [Semaphore.queue_release, hin]
      simp
    · rw [if_neg hsend, Semaphore.permits_release]
      simpa using hpermits
    · by_cases hm : m = n
      · subst hm
        simp [hunposted, TaskPhase.posted, setPhase, release, setSemaphore]
      · rw [if_neg hm]
        rfl

/-- A task that has found its channel gets a slot or stands in line. -/
theorem Permitted.acquire (h : Permitted s) (hat : s.at? n .looking = some call) :
    Permitted (s.acquire py fmt n call) := by
  obtain ⟨hphase, hcall⟩ := at?_eq_some.1 hat
  have hout := h.not_mem_queue hphase nofun call.channelId
  unfold SendTasks.acquire
  dsimp only
  split
  · rename_i hlocked
    refine h.move hcall (h.lt_started hphase nofun) (p := .acquiring) nofun ⟨rfl, rfl, rfl, rfl⟩ _
      (fun c => semaphoreFor_setSemaphore _ c _) ?_ (fun m => ?_) ?_ fun m => ?_
    · rw [Semaphore.queue_wait]
      exact (h.nodup _).append (List.nodup_singleton n) (by simpa using hout)
    · rw [Semaphore.queue_wait, List.mem_append, List.mem_singleton]
      by_cases hm : m = n <;> simp [hm]
    · rw [Semaphore.permits_wait]
      simp [hphase]
    · by_cases hm : m = n
      · simp [hm, setPhase, setSemaphore, h.posted, hphase, TaskPhase.posted]
      · rw [if_neg hm]
        rfl
  · rename_i hlocked
    rw [Bool.not_eq_true] at hlocked
    refine h.post hcall (Or.inl hphase) ?_ (fun m => ?_) (Semaphore.permits_take hlocked)
    · rw [Semaphore.queue_take]
      exact h.nodup _
    · rw [Semaphore.queue_take, Semaphore.queue_of_unlocked hlocked]
      simp

theorem Permitted.begin (h : Permitted s) (hn : s.started < s.loop.sends.length) :
    Permitted s.begin := by
  have hidle := (h.idle s.started).2 le_rfl
  have hphase : ∀ m p, p ≠ .looking → p ≠ .queued →
      (Function.update s.phases s.started .looking m = p ↔ s.phases m = p) := by
    intro m p hl hq
    by_cases hm : m = s.started
    · subst hm
      rw [Function.update_self, hidle]
      exact iff_of_false (Ne.symm hl) (Ne.symm hq)
    · rw [Function.update_of_ne hm]
  refine ⟨hn, fun m => ?_, fun c m => ?_, h.nodup, fun c => ?_, fun m => ?_⟩
  · change Function.update s.phases s.started .looking m = .queued ↔ s.started + 1 ≤ m
    by_cases hm : m = s.started
    · subst hm
      simp
    · rw [Function.update_of_ne hm, h.idle]
      omega
  · exact (h.queue c m).trans (and_congr_left fun _ => (hphase m .acquiring nofun nofun).symm)
  · have hset : s.begin.sendingOn c = s.sendingOn c := by
      ext m
      simp only [sendingOn, Finset.mem_filter, Finset.mem_range]
      refine (and_congr_right fun _ => and_congr_left fun _ => hphase m .sending nofun nofun).trans ?_
      refine ⟨fun hm => ⟨h.lt_started hm.2.1 nofun, hm.2⟩, fun hm => ⟨?_, hm.2⟩⟩
      exact hm.1.trans (Nat.lt_succ_self _)
    rw [hset]
    exact h.permits c
  · have hbegin : s.begin.phases m = if m = s.started then .looking else s.phases m :=
      Function.update_apply _ _ _ _
    refine (h.posted m).trans ?_
    rw [hbegin]
    by_cases hm : m = s.started
    · rw [if_pos hm, hm, hidle]
      rfl
    · rw [if_neg hm]

/-- Whom a semaphore woke stands in line for its channel. -/
theorem resume_head (h : Permitted s) {c : ℤ} (hw : (s.semaphoreFor c).woken.head? = some n)
    (hat : s.at? n .acquiring = some call) :
    call.channelId = c ∧ ∃ rest, (s.semaphoreFor c).woken = n :: rest := by
  obtain ⟨rest, hrest⟩ := List.head?_eq_some_iff.1 hw
  have hmem : n ∈ (s.semaphoreFor c).queue := by
    rw [Semaphore.queue_of_woken hrest]
    exact List.mem_cons_self
  have hon := ((h.queue c n).1 hmem).2
  rw [isOn_of_getElem (at?_eq_some.1 hat).2, decide_eq_true_iff] at hon
  exact ⟨hon, rest, hrest⟩

theorem Permitted.start (h : Permitted s) (cached : Bool) :
    Permitted (sendTasksStep py fmt dec ch s (.start cached)) := by
  simp only [sendTasksStep]
  split
  · exact h
  · rename_i call hcall
    have hbegin := h.begin (List.getElem?_eq_some_iff.1 hcall).1
    have hat : s.begin.at? s.started .looking = some call :=
      at?_eq_some.2 ⟨Function.update_self _ _ _, hcall⟩
    split_ifs
    · exact hbegin.drop hat rfl
    · exact hbegin.acquire hat
    · exact hbegin

/-- The oldest woken task goes on, with the slot that it was woken for. -/
theorem Permitted.resume (h : Permitted s) (c : ℤ) :
    Permitted (sendTasksStep py fmt dec ch s (.resume c)) := by
  simp only [sendTasksStep]
  split
  · exact h
  rename_i n hwoken
  split
  · exact h
  rename_i call hat
  obtain ⟨hphase, hcall⟩ := at?_eq_some.1 hat
  obtain ⟨rfl, rest, hrest⟩ := resume_head h hwoken hat
  have hne : (s.semaphoreFor call.channelId).woken ≠ [] := by rw [hrest]; nofun
  have hnodup := h.nodup call.channelId
  rw [Semaphore.queue_of_woken hrest, List.nodup_cons] at hnodup
  refine h.post hcall (Or.inr hphase) ?_ (fun m => ?_) (Semaphore.permits_resume hne)
  · rw [Semaphore.queue_resume hne]
    exact hnodup.2
  · rw [Semaphore.queue_resume hne]
    conv_rhs => rw [Semaphore.queue_of_woken hrest, List.mem_cons]
    constructor
    · intro hm
      exact ⟨fun he => hnodup.1 (he ▸ hm), Or.inr hm⟩
    · rintro ⟨hm, he | hm'⟩
      · exact absurd he hm
      · exact hm'

theorem Permitted.answered (h : Permitted s) {n : ℕ} {call : Sent}
    (hat : s.at? n .sending = some call) (answer : Answer) :
    Permitted ((s.release call.channelId).setPhase n (.done (.answered answer))) := by
  obtain ⟨hphase, hcall⟩ := at?_eq_some.1 hat
  refine h.move hcall (h.lt_started hphase nofun) (p := .done (.answered answer)) nofun
    ⟨rfl, rfl, rfl, rfl⟩ _ (fun c => semaphoreFor_release _ c) ?_ (fun m => ?_) ?_ fun m => ?_
  · rw [Semaphore.queue_release]
    exact h.nodup _
  · rw [Semaphore.queue_release]
    split_ifs with hm
    · subst hm
      simp [h.not_mem_queue hphase nofun]
    · rfl
  · rw [Semaphore.permits_release, if_pos hphase, if_neg nofun]
  · by_cases hm : m = n
    · subst hm
      simp [setPhase, release, setSemaphore, h.posted, hphase, TaskPhase.posted]
    · rw [if_neg hm]
      rfl

theorem permitted_step (h : Permitted s) (op : SendTaskOp) :
    Permitted (sendTasksStep py fmt dec ch s op) := by
  cases op with
  | intake src registry =>
    simp only [sendTasksStep]
    split
    · exact h.frame (s.loop.sends_tryEnqueue _ _) _ _
    · exact h.frame List.prefix_rfl _ _
  | forwarder op => exact h.frame (s.loop.sends_forwarderStep op) _ _
  | attachClient => exact h.frame List.prefix_rfl _ _
  | start cached => exact h.start cached
  | fetched n answer =>
    simp only [sendTasksStep]
    split
    · exact h
    · rename_i call hat
      split_ifs
      · exact h.acquire hat
      · exact h.drop hat rfl
  | resume c => exact h.resume c
  | sent n answer =>
    simp only [sendTasksStep]
    split
    · exact h
    · rename_i call hat
      split_ifs
      · exact h.answered hat answer
      · exact (h.answered hat answer).frame List.prefix_rfl _ _

theorem permitted_run (rateLimit : ℕ) (ops : List SendTaskOp) :
    Permitted (run (sendTasksStep py fmt dec ch) { rateLimit := rateLimit } ops) :=
  run_invariant (permitted_init rateLimit) (fun _ op h => permitted_step h op) ops

theorem rateLimit_step (op : SendTaskOp) :
    (sendTasksStep py fmt dec ch s op).rateLimit = s.rateLimit := by
  cases op with
  | intake src registry => simp only [sendTasksStep]; split <;> rfl
  | forwarder op => rfl
  | attachClient => rfl
  | start cached =>
    simp only [sendTasksStep]
    split
    · rfl
    · rename_i call _
      split_ifs
      · rfl
      · obtain h | h | h := acquire_advance py fmt s.begin s.started call <;> exact h.rateLimit
      · rfl
  | fetched n answer =>
    simp only [sendTasksStep]
    split
    · rfl
    · rename_i call _
      split_ifs
      · obtain h | h | h := acquire_advance py fmt s n call <;> exact h.rateLimit
      · rfl
  | resume c =>
    simp only [sendTasksStep]
    split
    · rfl
    · split
      · rfl
      · rename_i n _ _ call _
        obtain h | h := post_advance py fmt (s.setSemaphore c (s.semaphoreFor c).resume) n call
        all_goals exact h.rateLimit
  | sent n answer =>
    simp only [sendTasksStep]
    split
    · rfl
    · split_ifs <;> rfl

theorem rateLimit_run (rateLimit : ℕ) (ops : List SendTaskOp) :
    (run (sendTasksStep py fmt dec ch) { rateLimit := rateLimit } ops).rateLimit = rateLimit :=
  run_invariant (I := fun s : SendTasks => s.rateLimit = rateLimit) rfl
    (fun _ op h => (rateLimit_step op).trans h) ops

end SendTasks

/-- No slot of a channel is ever lost or handed out twice: not by an exception of the
renderer, not by one of `channel.send`, and in no order of the tasks. -/
theorem slots_accounted (rateLimit : ℕ) (ops : List SendTaskOp) (channelId : ℤ) :
    let s := run (sendTasksStep py fmt dec ch) { rateLimit := rateLimit } ops
    (s.semaphoreFor channelId).value + (s.semaphoreFor channelId).woken.length +
        (s.sendingOn channelId).card = rateLimit ∧
      ((∀ n, s.isOn n channelId → s.phases n ≠ .acquiring ∧ s.phases n ≠ .sending) →
        (s.semaphoreFor channelId).value = rateLimit) := by
  intro s
  have h : s.Permitted := SendTasks.permitted_run rateLimit ops
  have hsum : (s.semaphoreFor channelId).value + (s.semaphoreFor channelId).woken.length +
      (s.sendingOn channelId).card = rateLimit :=
    (h.permits channelId).trans (SendTasks.rateLimit_run rateLimit ops)
  refine ⟨hsum, fun hidle => ?_⟩
  have hwoken : (s.semaphoreFor channelId).woken = [] := by
    refine List.eq_nil_iff_forall_not_mem.2 fun n hn => ?_
    have hq := (h.queue channelId n).1 (List.mem_append_left _ hn)
    exact (hidle n hq.2).1 hq.1
  have hsending : s.sendingOn channelId = ∅ := by
    refine Finset.eq_empty_of_forall_notMem fun n hn => ?_
    have hs := (Finset.mem_filter.1 hn).2
    exact (hidle n hs.2).2 hs.1
  rwa [hwoken, hsending] at hsum

end TinoHelm

import Mathlib.Algebra.BigOperators.Group.Finset.Basic
import Mathlib.Algebra.Order.BigOperators.Group.Finset
import TinoHelm.Proofs.SendSlots

/-! No deadlock, and no channel waits for another: from every state the tasks of one
channel can come to their end by themselves, whatever Discord answers them, while the
sends of the other channels stay where they are. -/

namespace TinoHelm
open Base

variable {py : PyText} {fmt : Formatters} {dec : Decoders} {ch : Channels}

/-- The steps a task has before it at most. -/
def TaskPhase.steps : TaskPhase → ℕ
  | queued => 4
  | looking => 3
  | acquiring => 2
  | sending => 1
  | done _ => 0

namespace SendTasks

/-- A step that a task of the channel takes, or the start of the next task. `fetch` and
`send` are what Discord answers the calls. -/
def OwnStep (s : SendTasks) (c : ℤ) (cached : Bool) (fetch send : ℕ → Answer) : SendTaskOp → Prop
  | .start b => b = cached
  | .fetched n answer => s.isOn n c ∧ answer = fetch n
  | .resume d => d = c
  | .sent n answer => s.isOn n c ∧ answer = send n
  | _ => False

def remaining (s : SendTasks) (c : ℤ) : ℕ :=
  4 * (s.loop.sends.length - s.started) +
    ∑ n ∈ Finset.range s.started, if s.isOn n c then (s.phases n).steps else 0

/-- `s'` comes after `s`, and only the channel and new tasks have moved. -/
structure Apart (c : ℤ) (s s' : SendTasks) : Prop where
  loop : s'.loop = s.loop
  started : s.started ≤ s'.started
  others : ∀ n < s.started, s.isOn n c = false → s'.phases n = s.phases n

variable {s s' s'' : SendTasks} {n : ℕ} {call : Sent} {c : ℤ}

theorem Apart.refl : Apart c s s := ⟨rfl, le_rfl, fun _ _ _ => rfl⟩

theorem Apart.isOn (h : Apart c s s') (n : ℕ) (d : ℤ) : s'.isOn n d = s.isOn n d := by
  rw [SendTasks.isOn, h.loop, SendTasks.isOn]

theorem Apart.trans (h : Apart c s s') (h' : Apart c s' s'') : Apart c s s'' where
  loop := h'.loop.trans h.loop
  started := h.started.trans h'.started
  others n hn hc :=
    (h'.others n (hn.trans_le h.started) ((h.isOn n c).trans hc)).trans (h.others n hn hc)

theorem Advance.apart {p : TaskPhase} (ha : Advance s s' n p) (hon : s.isOn n c = true) :
    Apart c s s' where
  loop := ha.loop
  started := ha.started.ge
  others m _ hm := by
    have hne : m ≠ n := fun he => by
      rw [he, hon] at hm
      cases hm
    rw [ha.phases, Function.update_of_ne hne]

theorem Advance.remaining_lt {p : TaskPhase} (ha : Advance s s' n p) (hn : n < s.started)
    (hon : s.isOn n c = true) (hp : p.steps < (s.phases n).steps) :
    s'.remaining c < s.remaining c := by
  unfold remaining
  rw [ha.loop, ha.started]
  refine Nat.add_lt_add_left (Finset.sum_lt_sum (fun m _ => ?_) ⟨n, Finset.mem_range.2 hn, ?_⟩) _
  · rw [ha.isOn, ha.phases, Function.update_apply]
    split_ifs with hm hmn
    · rw [hmn]
      exact hp.le
    · exact le_rfl
    · exact le_rfl
  · rw [ha.isOn, ha.phases, Function.update_self, if_pos hon, if_pos hon]
    exact hp

theorem start_advance (py : PyText) (fmt : Formatters) (dec : Decoders) (ch : Channels)
    (s : SendTasks) (cached : Bool) (hn : s.started < s.loop.sends.length) :
    ∃ p, Advance s.begin (sendTasksStep py fmt dec ch s (.start cached)) s.started p ∧
      p.steps ≤ 3 := by
  simp only [sendTasksStep, List.getElem?_eq_getElem hn]
  split_ifs
  · exact ⟨.done .noClient, ⟨rfl, rfl, rfl, rfl⟩, by decide⟩
  · obtain h | h | h := acquire_advance py fmt s.begin s.started (s.loop.sends[s.started])
    · exact ⟨_, h, by decide⟩
    · exact ⟨_, h, by decide⟩
    · exact ⟨_, h, by decide⟩
  · refine ⟨.looking, ⟨rfl, rfl, rfl, ?_⟩, by decide⟩
    exact (Function.update_idem _ _ s.phases).symm

theorem start_serves (cached : Bool) (hn : s.started < s.loop.sends.length) :
    Apart c s (sendTasksStep py fmt dec ch s (.start cached)) ∧
      (sendTasksStep py fmt dec ch s (.start cached)).remaining c < s.remaining c := by
  obtain ⟨p, ha, hp⟩ := start_advance py fmt dec ch s cached hn
  generalize sendTasksStep py fmt dec ch s (.start cached) = t at ha
  have hphases : ∀ m, m ≠ s.started → t.phases m = s.phases m := fun m hm => by
    rw [ha.phases, Function.update_of_ne hm]
    exact Function.update_of_ne hm _ _
  have hstarted : t.started = s.started + 1 := ha.started
  have hloop : t.loop = s.loop := ha.loop
  have hon : ∀ m, t.isOn m c = s.isOn m c := fun m => ha.isOn m c
  refine ⟨⟨hloop, by omega, fun m hm _ => hphases m hm.ne⟩, ?_⟩
  unfold remaining
  rw [hloop, hstarted, Finset.sum_range_succ]
  have hsum : (∑ m ∈ Finset.range s.started, if t.isOn m c then (t.phases m).steps else 0) =
      ∑ m ∈ Finset.range s.started, if s.isOn m c then (s.phases m).steps else 0 := by
    refine Finset.sum_congr rfl fun m hm => ?_
    rw [hon, hphases m (Finset.mem_range.1 hm).ne]
  have hnew : (if t.isOn s.started c then (t.phases s.started).steps else 0) ≤ 3 := by
    rw [ha.phases, Function.update_self]
    split_ifs
    · exact hp
    · exact Nat.zero_le _
  rw [hsum]
  omega

theorem fetched_serves (h : s.Permitted) {answer : Answer} (hat : s.at? n .looking = some call)
    (hon : s.isOn n c = true) :
    Apart c s (sendTasksStep py fmt dec ch s (.fetched n answer)) ∧
      (sendTasksStep py fmt dec ch s (.fetched n answer)).remaining c < s.remaining c := by
  have hphase := (at?_eq_some.1 hat).1
  have hn := h.lt_started hphase (by simp)
  have hcases : ∃ p, Advance s (sendTasksStep py fmt dec ch s (.fetched n answer)) n p ∧
      p.steps < (s.phases n).steps := by
    rw [hphase]
    simp only [sendTasksStep, hat]
    split_ifs
    · obtain ha | ha | ha := acquire_advance py fmt s n call
      · exact ⟨_, ha, by decide⟩
      · exact ⟨_, ha, by decide⟩
      · exact ⟨_, ha, by decide⟩
    · exact ⟨.done (.notFetched answer), ⟨rfl, rfl, rfl, rfl⟩, by simp [TaskPhase.steps]⟩
  obtain ⟨p, ha, hp⟩ := hcases
  exact ⟨ha.apart hon, ha.remaining_lt hn hon hp⟩

theorem resume_serves (h : s.Permitted) (hw : (s.semaphoreFor c).woken ≠ []) :
    Apart c s (sendTasksStep py fmt dec ch s (.resume c)) ∧
      (sendTasksStep py fmt dec ch s (.resume c)).remaining c < s.remaining c := by
  obtain ⟨n, rest, hrest⟩ := List.exists_cons_of_ne_nil hw
  have hmem : n ∈ (s.semaphoreFor c).queue := by
    rw [Semaphore.queue_of_woken hrest]
    exact List.mem_cons_self
  obtain ⟨hphase, hon⟩ := (h.queue c n).1 hmem
  have hn := h.lt_started hphase (by simp)
  have hcall := List.getElem?_eq_getElem (hn.trans_le h.begun)
  have hat := at?_eq_some.2 ⟨hphase, hcall⟩
  have hcases : ∃ p, Advance s (sendTasksStep py fmt dec ch s (.resume c)) n p ∧
      p.steps < (s.phases n).steps := by
    rw [hphase]
    simp only [sendTasksStep, hrest, List.head?_cons, hat]
    obtain ha | ha := post_advance py fmt (s.setSemaphore c (s.semaphoreFor c).resume) n
      (s.loop.sends.get ⟨n, hn.trans_le h.begun⟩)
    · exact ⟨_, ⟨ha.loop, ha.rateLimit, ha.started, ha.phases⟩, by decide⟩
    · exact ⟨_, ⟨ha.loop, ha.rateLimit, ha.started, ha.phases⟩, by decide⟩
  obtain ⟨p, ha, hp⟩ := hcases
  exact ⟨ha.apart hon, ha.remaining_lt hn hon hp⟩

theorem sent_serves (h : s.Permitted) (answer : Answer) (hat : s.at? n .sending = some call)
    (hon : s.isOn n c = true) :
    Apart c s (sendTasksStep py fmt dec ch s (.sent n answer)) ∧
      (sendTasksStep py fmt dec ch s (.sent n answer)).remaining c < s.remaining c := by
  have hphase := (at?_eq_some.1 hat).1
  have ha : Advance s (sendTasksStep py fmt dec ch s (.sent n answer)) n
      (.done (.answered answer)) := by
    simp only [sendTasksStep, hat]
    split_ifs
    · exact ⟨rfl, rfl, rfl, rfl⟩
    · exact ⟨rfl, rfl, rfl, rfl⟩
  refine ⟨ha.apart hon, ha.remaining_lt (h.lt_started hphase (by simp)) hon ?_⟩
  rw [hphase]
  simp [TaskPhase.steps]

/-- As long as a task of the channel is not done, the next task can start or one of the
channel's own can go on. A task that sleeps while no other is woken sleeps because every
slot is with a send in flight. -/
theorem own_step (h : s.Permitted) (hrate : 0 < s.rateLimit) (cached : Bool)
    (fetch send : ℕ → Answer) (hon : s.isOn n c = true) (hnot : (s.phases n).isDone = false) :
    ∃ op, s.OwnStep c cached fetch send op ∧ Apart c s (sendTasksStep py fmt dec ch s op) ∧
      (sendTasksStep py fmt dec ch s op).remaining c < s.remaining c := by
  have hlen : n < s.loop.sends.length := by
    by_contra hlen
    simp [isOn, List.getElem?_eq_none (not_lt.1 hlen)] at hon
  have hcall := List.getElem?_eq_getElem hlen
  by_cases hstarted : s.started < s.loop.sends.length
  · exact ⟨.start cached, rfl, start_serves cached hstarted⟩
  have hn : n < s.started := hlen.trans_le (not_lt.1 hstarted)
  have hsent : ∀ m, s.phases m = .sending → s.isOn m c = true →
      ∃ op, s.OwnStep c cached fetch send op ∧ Apart c s (sendTasksStep py fmt dec ch s op) ∧
        (sendTasksStep py fmt dec ch s op).remaining c < s.remaining c := fun m hm hmc => by
    have hml := (h.lt_started hm (by simp)).trans_le h.begun
    exact ⟨.sent m (send m), ⟨hmc, rfl⟩,
      sent_serves h _ (at?_eq_some.2 ⟨hm, List.getElem?_eq_getElem hml⟩) hmc⟩
  cases hphase : s.phases n with
  | queued => exact absurd ((h.idle n).1 hphase) (not_le.2 hn)
  | looking =>
    exact ⟨.fetched n (fetch n), ⟨hon, rfl⟩, fetched_serves h (at?_eq_some.2 ⟨hphase, hcall⟩) hon⟩
  | acquiring =>
    have hmem := (h.queue c n).2 ⟨hphase, hon⟩
    by_cases hw : (s.semaphoreFor c).woken = []
    · have hpermits := Semaphore.permits_of_asleep hw (List.ne_nil_of_mem hmem)
      have hsum := h.permits c
      obtain ⟨m, hm⟩ : (s.sendingOn c).Nonempty := Finset.card_pos.1 (by omega)
      have hm := (Finset.mem_filter.1 hm).2
      exact hsent m hm.1 hm.2
    · exact ⟨.resume c, rfl, resume_serves h hw⟩
  | sending => exact hsent n hphase hon
  | done ending =>
    rw [hphase] at hnot
    cases hnot

theorem drain (cached : Bool) (fetch send : ℕ → Answer) (c : ℤ) (k : ℕ) (s : SendTasks)
    (h : s.Permitted) (hrate : 0 < s.rateLimit) (hk : s.remaining c = k) :
    ∃ ops, (∀ op ∈ ops, s.OwnStep c cached fetch send op) ∧
      ops.length ≤ k ∧ Apart c s (run (sendTasksStep py fmt dec ch) s ops) ∧
      ∀ n, s.isOn n c = true → ((run (sendTasksStep py fmt dec ch) s ops).phases n).isDone := by
  induction k using Nat.strong_induction_on generalizing s with
  | _ k ih =>
    by_cases hall : ∀ n, s.isOn n c = true → (s.phases n).isDone = true
    · exact ⟨[], fun _ hop => absurd hop List.not_mem_nil, Nat.zero_le _, .refl, hall⟩
    push Not at hall
    obtain ⟨n, hon, hnot⟩ := hall
    obtain ⟨op, hop, hapart, hlt⟩ := @own_step py fmt dec ch s n c h hrate cached fetch send hon
      (Bool.eq_false_iff.2 hnot)
    obtain ⟨ops, hops, hlen, hrest, hdone⟩ := ih _ (hk ▸ hlt) _ (permitted_step h op)
      (hrate.trans_eq (rateLimit_step op).symm) rfl
    refine ⟨op :: ops, fun o ho => ?_, ?_, hapart.trans hrest, fun m hm => ?_⟩
    · rcases List.mem_cons.1 ho with rfl | ho
      · exact hop
      · have := hops o ho
        cases o with
        | fetched m answer => exact ⟨(hapart.isOn m c).symm.trans this.1, this.2⟩
        | sent m answer => exact ⟨(hapart.isOn m c).symm.trans this.1, this.2⟩
        | _ => exact this
    · rw [List.length_cons]
      omega
    · exact hdone m ((hapart.isOn m c).trans hm)

theorem remaining_le (h : s.Permitted) : s.remaining c ≤ 4 * s.loop.sends.length := by
  have hsum : (∑ n ∈ Finset.range s.started, if s.isOn n c then (s.phases n).steps else 0) ≤
      s.started * 4 := by
    refine (Finset.sum_le_card_nsmul _ _ 4 fun n _ => ?_).trans_eq (by simp)
    split_ifs
    · cases s.phases n <;> simp [TaskPhase.steps]
    · exact Nat.zero_le _
  have := h.begun
  unfold remaining
  omega

end SendTasks

/-- From every state the tasks of a channel come to their end within four steps each,
whatever they are answered, and no send of another channel has to end for that. -/
theorem channel_drains (rateLimit : ℕ) (hrate : 0 < rateLimit) (pre : List SendTaskOp)
    (channelId : ℤ) (cached : Bool) (fetch send : ℕ → Answer) :
    let s := run (sendTasksStep py fmt dec ch) { rateLimit := rateLimit } pre
    ∃ ops, (∀ op ∈ ops, s.OwnStep channelId cached fetch send op) ∧
      ops.length ≤ 4 * s.loop.sends.length ∧
      (∀ n, s.isOn n channelId = true →
        ((run (sendTasksStep py fmt dec ch) s ops).phases n).isDone) ∧
      ∀ n < s.started, s.isOn n channelId = false →
        (run (sendTasksStep py fmt dec ch) s ops).phases n = s.phases n := by
  intro s
  have h : s.Permitted := SendTasks.permitted_run rateLimit pre
  have hlimit : s.rateLimit = rateLimit := SendTasks.rateLimit_run rateLimit pre
  obtain ⟨ops, hops, hlen, hapart, hdone⟩ :=
    SendTasks.drain cached fetch send channelId _ s h (hlimit ▸ hrate) rfl
  exact ⟨ops, hops, hlen.trans (SendTasks.remaining_le h), hdone, hapart.others⟩

/-- Two calls for one channel with a single slot, both started, and no answer but
exceptions. -/
theorem channel_drains_pair :
    let call := SendTaskOp.forwarder (.enqueue ⟨"tinohelm.message", .dict []⟩ 7)
    let s := run (sendTasksStep plainText noFormatters textDecoders ⟨1, 2, 3⟩) { rateLimit := 1 }
      [.attachClient, call, call, .start true, .start true]
    ∃ ops, (∀ op ∈ ops, s.OwnStep 7 true (fun _ => .raised) (fun _ => .raised) op) ∧
      ops.length ≤ 4 * s.loop.sends.length ∧
      (∀ n, s.isOn n 7 = true → ((run (sendTasksStep plainText noFormatters textDecoders
        ⟨1, 2, 3⟩) s ops).phases n).isDone) ∧
      ∀ n < s.started, s.isOn n 7 = false → (run (sendTasksStep plainText noFormatters
        textDecoders ⟨1, 2, 3⟩) s ops).phases n = s.phases n :=
  channel_drains 1 (by decide) _ 7 true _ _

end TinoHelm

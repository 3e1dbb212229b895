import TinoHelm.Proofs.ReportReplies

/-! What `_request_report` leaves in the listener table. A future goes off its list when
its key is dispatched or when its own call cleans up after the timeout. A call that is
left by an exception does not clean up. -/

namespace TinoHelm
open Base

namespace Forwarder

variable {f : Forwarder} {owner : ℕ → ReportKey} {key : ReportKey} {fut : ℕ}

def Distinct (f : Forwarder) : Prop := ∀ key, (f.listenersOf key).Nodup

theorem distinct_init : Distinct {} := fun key => by simp [listenersOf]

theorem Distinct.watch (h : f.Distinct) (hk : f.Keyed owner) (topic sid : String) :
    (f.watchReport topic sid).1.Distinct := by
  intro key
  rw [listenersOf_watchReport]
  split_ifs
  · refine List.nodup_append.2 ⟨h key, List.nodup_singleton _, fun a ha b hb hab => ?_⟩
    rw [List.mem_singleton.1 hb] at hab
    exact absurd (hk.listed key a ha).2 (by omega)
  · exact h key

theorem Distinct.drop (h : f.Distinct) (topic sid : String) (future : ℕ) :
    (f.dropReportListener topic sid future).Distinct := by
  intro key
  rw [listenersOf_dropReportListener]
  split_ifs
  · exact (h key).erase future
  · exact h key

theorem mem_listenersOf_watchReport (topic sid : String) :
    fut ∈ (f.watchReport topic sid).1.listenersOf key ↔
      fut ∈ f.listenersOf key ∨ key = (topic, .str sid) ∧ fut = f.created := by
  rw [listenersOf_watchReport]
  split_ifs with hk
  · simp [hk]
  · simp [hk]

theorem mem_listenersOf_drop (h : f.Distinct) (topic sid : String) (future : ℕ) :
    fut ∈ (f.dropReportListener topic sid future).listenersOf key ↔
      fut ∈ f.listenersOf key ∧ ¬(key = (topic, .str sid) ∧ fut = future) := by
  rw [listenersOf_dropReportListener]
  split_ifs with hk
  · rw [(h key).mem_erase_iff]
    simp [hk, and_comm]
  · simp [hk]

end Forwarder

open Forwarder

section Calls

variable {f : Forwarder} {owner : ℕ → ReportKey} {key : ReportKey} {fut : ℕ}

theorem distinct_watchAll (h : f.Distinct) (hk : f.Keyed owner) (topic : String)
    (targets : List String) : (watchAll f topic targets).1.Distinct := by
  induction targets generalizing f owner with
  | nil => exact h
  | cons sid targets ih => exact ih (h.watch hk topic sid) (hk.watch topic sid)

/-- The lists grow by the futures of the call. -/
theorem mem_listenersOf_watchAll (topic : String) (targets : List String) :
    fut ∈ (watchAll f topic targets).1.listenersOf key ↔
      fut ∈ f.listenersOf key ∨
        ∃ e ∈ (watchAll f topic targets).2, key = (topic, .str e.1) ∧ fut = e.2 := by
  induction targets generalizing f with
  | nil => simp [watchAll]
  | cons sid targets ih =>
    rw [watchAll, ih, mem_listenersOf_watchReport]
    simp only [List.mem_cons, exists_eq_or_imp, or_assoc]
    rfl

theorem created_le_watchAll (topic : String) (targets : List String) :
    f.created ≤ (watchAll f topic targets).1.created ∧
      ∀ e ∈ (watchAll f topic targets).2, f.created ≤ e.2 := by
  induction targets generalizing f with
  | nil => simp [watchAll]
  | cons sid targets ih =>
    obtain ⟨hle, hnew⟩ := ih (f := (f.watchReport topic sid).1)
    have hlt : f.created ≤ (f.watchReport topic sid).1.created := Nat.le_succ _
    refine ⟨hlt.trans hle, fun e he => ?_⟩
    rcases List.mem_cons.1 he with rfl | he
    · exact le_rfl
    · exact hlt.trans (hnew e he)

theorem futures_watchAll (topic : String) (targets : List String) :
    (watchAll f topic targets).1.futures = f.futures := by
  induction targets generalizing f with
  | nil => rfl
  | cons sid targets ih => exact ih

theorem listenersOf_cancelAll (futures : List (String × ℕ)) (key : ReportKey) :
    (cancelAll f futures).listenersOf key = f.listenersOf key := by
  induction futures generalizing f with
  | nil => rfl
  | cons e futures ih => exact ih.trans (listenersOf_cancel f e.2 key)

theorem futures_cancelAll {futures : List (String × ℕ)} (hf : ∀ e ∈ futures, e.2 ≠ fut) :
    (cancelAll f futures).futures fut = f.futures fut := by
  induction futures generalizing f with
  | nil => rfl
  | cons e futures ih =>
    have hne : ¬(fut = e.2 ∧ (f.futures fut).isPending = true) :=
      fun hc => hf e List.mem_cons_self hc.1.symm
    rw [cancelAll, List.foldl_cons, ← cancelAll,
      ih fun e he => hf e (List.mem_cons_of_mem _ he), futures_cancel, if_neg hne]

theorem distinct_dropAll (h : f.Distinct) (topic : String) (futures : List (String × ℕ)) :
    (dropAll f topic futures).Distinct := by
  induction futures generalizing f with
  | nil => exact h
  | cons e futures ih => exact ih (h.drop topic e.1 e.2)

/-- The lists shrink by the futures of the call. -/
theorem mem_listenersOf_dropAll (h : f.Distinct) (topic : String) (futures : List (String × ℕ)) :
    fut ∈ (dropAll f topic futures).listenersOf key ↔
      fut ∈ f.listenersOf key ∧ ¬∃ e ∈ futures, key = (topic, .str e.1) ∧ fut = e.2 := by
  induction futures generalizing f with
  | nil => simp [dropAll]
  | cons e futures ih =>
    rw [dropAll, List.foldl_cons, ← dropAll, ih (h.drop topic e.1 e.2), mem_listenersOf_drop h]
    simp only [List.mem_cons, exists_eq_or_imp, not_or, and_assoc]

end Calls

namespace Loop

variable {s : Loop} {owner : ℕ → ReportKey} {key : ReportKey} {fut : ℕ}

def Delivers (s : Loop) (key : ReportKey) : Prop :=
  ∃ job, s.callbacks.jobs.head? = some job ∧ reportKey job.2 = .ok (some key)

theorem listenersOf_runCallback (hk : s.fwd.Keyed owner) (key : ReportKey) :
    (s.Delivers key → s.runCallback.fwd.listenersOf key = []) ∧
      (¬s.Delivers key → s.runCallback.fwd.listenersOf key = s.fwd.listenersOf key) := by
  cases hj : s.callbacks.jobs with
  | nil =>
    rw [runCallback_idle (by rw [hj, List.head?_nil])]
    refine ⟨?_, fun _ => rfl⟩
    rintro ⟨job, hh, -⟩
    simp [hj] at hh
  | cons job rest =>
    obtain ⟨-, hown, hother⟩ := runCallback_key hk hj key
    constructor
    · rintro ⟨j, hh, hr⟩
      rw [hj, List.head?_cons, Option.some.injEq] at hh
      exact hown (hh ▸ hr)
    · intro hd
      refine (hother fun hr => hd ⟨job, ?_, hr⟩).1
      rw [hj, List.head?_cons]

theorem distinct_runCallback (hk : s.fwd.Keyed owner) (h : s.fwd.Distinct) :
    s.runCallback.fwd.Distinct := by
  intro key
  by_cases hd : s.Delivers key
  · rw [(listenersOf_runCallback hk key).1 hd]
    exact List.nodup_nil
  · rw [(listenersOf_runCallback hk key).2 hd]
    exact h key

theorem cancelled_of_runCallback (h : s.runCallback.fwd.futures fut = .cancelled) :
    s.fwd.futures fut = .cancelled := by
  cases hj : s.callbacks.jobs.head? with
  | none => rwa [runCallback_idle hj] at h
  | some job =>
    rw [runCallback_job hj] at h
    dsimp only at h
    rw [futures_dispatched] at h
    split_ifs at h
    exact h

end Loop

namespace Phase

def Live (p : Phase) : Prop := p = .publishing ∨ p = .waiting ∨ p = .expired

/-- The call still counts on its futures. -/
def Awaits (p : Phase) : Prop := p = .publishing ∨ p = .waiting

theorem Live.not_settled {p : Phase} (h : p.Live) : p ≠ .finished ∧ p ≠ .failed := by
  rcases h with rfl | rfl | rfl <;> simp

end Phase

/-- The call whose coroutine takes the step. -/
def RequestOp.caller : RequestOp → Option ℕ
  | .published r | .publishFails r | .gathered r | .expire r | .collect r | .cancelled r => some r
  | .start .. | .intake .. | .callback => none

namespace Requests

/-- An exception leaves the call: a publish raised, or the coroutine was cancelled. -/
inductive Raises (s : Requests) : RequestOp → ℕ → Request → Prop
  | publish {r : ℕ} {req : Request} :
      s.requests[r]? = some req → req.phase = .publishing → Raises s (.publishFails r) r req
  | cancelled {r : ℕ} {req : Request} :
      s.requests[r]? = some req → req.phase.Live → Raises s (.cancelled r) r req

/-- The awaits a call goes on from, with the forwarder it leaves. -/
inductive Turns (s : Requests) : RequestOp → ℕ → Request → Phase → Forwarder → Prop
  | published {r : ℕ} {req : Request} : req.phase = .publishing →
      Turns s (.published r) r req .waiting s.loop.fwd
  | gathered {r : ℕ} {req : Request} : req.phase = .waiting → req.done s.loop.fwd →
      Turns s (.gathered r) r req .finished s.loop.fwd
  | expired {r : ℕ} {req : Request} : req.phase = .waiting →
      Turns s (.expire r) r req .expired (cancelAll s.loop.fwd req.futures)
  | collected {r : ℕ} {req : Request} : req.phase = .expired →
      Turns s (.collect r) r req .finished (dropAll s.loop.fwd req.topic req.futures)
  | raised {op : RequestOp} {r : ℕ} {req : Request} {fwd : Forwarder} : s.Raises op r req →
      fwd = s.loop.fwd ∨ fwd = cancelAll s.loop.fwd req.futures →
      Turns s op r req .failed fwd

/-- What a step does to the calls and to the forwarder. -/
inductive Moves (s : Requests) : RequestOp → Requests → Prop
  | quiet {op : RequestOp} {t : Requests} : op ≠ .callback → t.loop.fwd = s.loop.fwd →
      t.requests = s.requests → Moves s op t
  | callback {t : Requests} : t.loop = s.loop.runCallback → t.requests = s.requests →
      Moves s .callback t
  | start {op : RequestOp} {t : Requests} (targets : List String) (req : Request) :
      op.caller = none → req.phase = .publishing →
      req.futures = (watchAll s.loop.fwd req.topic targets).2 →
      t.loop.fwd = (watchAll s.loop.fwd req.topic targets).1 →
      t.requests = s.requests ++ [req] → Moves s op t
  | turn {op : RequestOp} {r : ℕ} {t : Requests} {req : Request} {phase : Phase} :
      s.requests[r]? = some req → s.Turns op r req phase t.loop.fwd →
      t.requests = s.requests.set r { req with phase } → Moves s op t

end Requests

theorem inPhase_eq {s : Requests} {r : ℕ} {phase : Phase} {req : Request}
    (h : s.inPhase r phase = some req) : s.requests[r]? = some req ∧ req.phase = phase := by
  rw [Requests.inPhase, Option.filter_eq_some_iff] at h
  exact ⟨h.1, by simpa using h.2⟩

theorem moves_inPhase {s t : Requests} {op : RequestOp} {r : ℕ} {p : Phase} {req : Request}
    (hp : s.inPhase r p = some req) (phase : Phase)
    (hturn : req.phase = p → s.Turns op r req phase t.loop.fwd)
    (ht : t.requests = s.requests.set r { req with phase }) : s.Moves op t :=
  .turn (inPhase_eq hp).1 (hturn (inPhase_eq hp).2) ht

theorem moves_gathered {s : Requests} {owner : ℕ → ReportKey} (h : Correlated s owner)
    (ch : Channels) (r : ℕ) : s.Moves (.gathered r) (requestStep ch s (.gathered r)) := by
  simp only [requestStep, Requests.waitEnds]
  cases hp : s.inPhase r .waiting with
  | none => exact .quiet (by simp) rfl rfl
  | some req =>
    dsimp only
    split_ifs with hd
    · refine moves_inPhase hp .finished (fun hq => ?_) rfl
      rw [Requests.finish, Requests.setPhase, (postReplies_frame h.ordered req.channelId _).1]
      exact .gathered hq hd
    · exact .quiet (by simp) rfl rfl

theorem moves_collected {s : Requests} {owner : ℕ → ReportKey} (h : Correlated s owner)
    (ch : Channels) (r : ℕ) : s.Moves (.collect r) (requestStep ch s (.collect r)) := by
  simp only [requestStep, Requests.waitEnds]
  cases hp : s.inPhase r .expired with
  | none => exact .quiet (by simp) rfl rfl
  | some req =>
    refine moves_inPhase hp .finished (fun hq => ?_) rfl
    rw [Requests.finish, Requests.setPhase,
      (postReplies_frame (h.ordered.fwd _) req.channelId _).1]
    exact .collected hq

theorem moves_cancelled (s : Requests) (ch : Channels) (r : ℕ) :
    s.Moves (.cancelled r) (requestStep ch s (.cancelled r)) := by
  simp only [requestStep, Requests.abort]
  cases hr : s.requests[r]? with
  | none => exact .quiet (by simp) rfl rfl
  | some req =>
    have hraise : req.phase.Live → s.Raises (.cancelled r) r req := .cancelled hr
    dsimp only
    cases hq : req.phase with
    | publishing => exact .turn hr (.raised (hraise (by simp [Phase.Live, hq])) (Or.inl rfl)) rfl
    | expired => exact .turn hr (.raised (hraise (by simp [Phase.Live, hq])) (Or.inl rfl)) rfl
    | waiting => exact .turn hr (.raised (hraise (by simp [Phase.Live, hq])) (Or.inr rfl)) rfl
    | finished => exact .quiet (by simp) rfl rfl
    | failed => exact .quiet (by simp) rfl rfl

theorem moves_step {s : Requests} {owner : ℕ → ReportKey} (h : Correlated s owner) (ch : Channels)
    (op : RequestOp) : s.Moves op (requestStep ch s op) := by
  cases op with
  | start registry channelId kind strategy =>
    simp only [requestStep, Requests.start]
    split
    · exact .start _ _ rfl rfl rfl rfl rfl
    · exact .quiet (by simp) rfl rfl
  | published r =>
    simp only [requestStep]
    cases hp : s.inPhase r .publishing with
    | none => exact .quiet (by simp) rfl rfl
    | some req => exact moves_inPhase hp .waiting .published rfl
  | publishFails r =>
    simp only [requestStep]
    cases hp : s.inPhase r .publishing with
    | none => exact .quiet (by simp) rfl rfl
    | some req =>
      exact moves_inPhase hp .failed
        (fun hq => .raised (.publish (inPhase_eq hp).1 hq) (Or.inl rfl)) rfl
  | intake env channelId =>
    exact .quiet (by simp) (s.loop.fwd_tryEnqueue env channelId) rfl
  | callback => exact .callback rfl rfl
  | gathered r => exact moves_gathered h ch r
  | expire r =>
    simp only [requestStep, Requests.expire]
    cases hp : s.inPhase r .waiting with
    | none => exact .quiet (by simp) rfl rfl
    | some req => exact moves_inPhase hp .expired .expired rfl
  | collect r => exact moves_collected h ch r
  | cancelled r => exact moves_cancelled s ch r

section Step

variable {s t : Requests} {op : RequestOp} {owner : ℕ → ReportKey} {key : ReportKey} {fut : ℕ}

theorem Requests.Raises.get {r : ℕ} {req : Request} (h : s.Raises op r req) :
    s.requests[r]? = some req ∧ op.caller = some r := by
  cases h with
  | publish hr hp => exact ⟨hr, rfl⟩
  | cancelled hr hp => exact ⟨hr, rfl⟩

theorem Requests.Raises.live {r : ℕ} {req : Request} (h : s.Raises op r req) : req.phase.Live := by
  cases h with
  | publish hr hp => exact Or.inl hp
  | cancelled hr hp => exact hp

namespace Requests.Moves

theorem fwd_cases (hm : s.Moves op t) :
    t.loop.fwd = s.loop.fwd ∨
      (op = .callback ∧ t.loop = s.loop.runCallback) ∨
      (∃ topic targets, t.loop.fwd = (watchAll s.loop.fwd topic targets).1) ∨
      (∃ futures, t.loop.fwd = cancelAll s.loop.fwd futures) ∨
      ∃ r req, op = .collect r ∧ s.requests[r]? = some req ∧
        t.loop.fwd = dropAll s.loop.fwd req.topic req.futures ∧
        t.requests[r]? = some { req with phase := .finished } := by
  cases hm with
  | quiet _ hf => exact Or.inl hf
  | callback hl => exact Or.inr (Or.inl ⟨rfl, hl⟩)
  | start targets req _ _ _ hf => exact Or.inr (Or.inr (Or.inl ⟨_, _, hf⟩))
  | @turn _ r _ req phase hr hturn ht =>
    obtain ⟨hlt, -⟩ := List.getElem?_eq_some_iff.1 hr
    generalize t.loop.fwd = fwd at hturn
    cases hturn with
    | published => exact Or.inl rfl
    | gathered => exact Or.inl rfl
    | expired => exact Or.inr (Or.inr (Or.inr (Or.inl ⟨_, rfl⟩)))
    | collected =>
      refine Or.inr (Or.inr (Or.inr (Or.inr ⟨r, req, rfl, hr, rfl, ?_⟩)))
      rw [ht, List.getElem?_set_self hlt]
    | raised _ hf => exact hf.imp_right fun hf => Or.inr (Or.inr (Or.inl ⟨_, hf⟩))

theorem created_le (hm : s.Moves op t) (hk : s.loop.fwd.Keyed owner) :
    s.loop.fwd.created ≤ t.loop.fwd.created := by
  rcases hm.fwd_cases with hf | ⟨-, hl⟩ | ⟨topic, targets, hf⟩ | ⟨futures, hf⟩ |
    ⟨_, req, -, -, hf, -⟩
  · rw [hf]
  · rw [hl, (keyed_runCallback hk).2]
  · rw [hf]
    exact (created_le_watchAll topic targets).1
  · rw [hf, (keyed_cancelAll hk futures).2.1]
  · rw [hf, (keyed_dropAll hk _ _).2.1]

theorem distinct (hm : s.Moves op t) (hk : s.loop.fwd.Keyed owner) (hd : s.loop.fwd.Distinct) :
    t.loop.fwd.Distinct := by
  rcases hm.fwd_cases with hf | ⟨-, hl⟩ | ⟨topic, targets, hf⟩ | ⟨futures, hf⟩ |
    ⟨_, req, -, -, hf, -⟩
  · rwa [hf]
  · rw [hl]
    exact Loop.distinct_runCallback hk hd
  · rw [hf]
    exact distinct_watchAll hd hk topic targets
  · intro key
    rw [hf, listenersOf_cancelAll]
    exact hd key
  · rw [hf]
    exact distinct_dropAll hd req.topic req.futures

/-- A step neither lists a future that exists nor takes one off, apart from the dispatch of
its key and the cleanup of its own call. -/
theorem listed_iff (hm : s.Moves op t) (hk : s.loop.fwd.Keyed owner) (hd : s.loop.fwd.Distinct)
    (hlt : fut < s.loop.fwd.created) (key : ReportKey) :
    (fut ∈ t.loop.fwd.listenersOf key ↔ fut ∈ s.loop.fwd.listenersOf key) ∨
      fut ∉ t.loop.fwd.listenersOf key ∧
        (op = .callback ∧ s.loop.Delivers key ∧ t.loop = s.loop.runCallback ∨
          ∃ r req, op = .collect r ∧ s.requests[r]? = some req ∧ (∃ e ∈ req.futures, e.2 = fut) ∧
            t.requests[r]? = some { req with phase := .finished }) := by
  rcases hm.fwd_cases with hf | ⟨rfl, hl⟩ | ⟨topic, targets, hf⟩ | ⟨futures, hf⟩ |
    ⟨r, req, rfl, hr, hf, hfin⟩
  · exact Or.inl (by rw [hf])
  · by_cases hdel : s.loop.Delivers key
    · refine Or.inr ⟨?_, Or.inl ⟨rfl, hdel, hl⟩⟩
      rw [hl, (Loop.listenersOf_runCallback hk key).1 hdel]
      exact List.not_mem_nil
    · exact Or.inl (by rw [hl, (Loop.listenersOf_runCallback hk key).2 hdel])
  · refine Or.inl ?_
    rw [hf, mem_listenersOf_watchAll]
    refine or_iff_left ?_
    rintro ⟨e, he, -, hfut⟩
    have := (created_le_watchAll (f := s.loop.fwd) topic targets).2 e he
    omega
  · exact Or.inl (by rw [hf, listenersOf_cancelAll])
  · rw [hf, mem_listenersOf_dropAll hd]
    by_cases hown : ∃ e ∈ req.futures, key = (req.topic, .str e.1) ∧ fut = e.2
    · obtain ⟨e, he, hkey, hfut⟩ := hown
      exact Or.inr ⟨fun hc => hc.2 ⟨e, he, hkey, hfut⟩,
        Or.inr ⟨r, req, rfl, hr, ⟨e, he, hfut.symm⟩, hfin⟩⟩
    · exact Or.inl (and_iff_left hown)

theorem requests_cases (hm : s.Moves op t) {i : ℕ} {req' : Request}
    (h : t.requests[i]? = some req') :
    s.requests[i]? = some req' ∨
      (req'.phase = .publishing ∧ i = s.requests.length ∧ ∃ targets,
        req'.futures = (watchAll s.loop.fwd req'.topic targets).2 ∧
        t.loop.fwd = (watchAll s.loop.fwd req'.topic targets).1) ∨
      ∃ req, s.requests[i]? = some req ∧ s.Turns op i req req'.phase t.loop.fwd ∧
        req'.topic = req.topic ∧ req'.futures = req.futures := by
  cases hm with
  | quiet _ _ hr => exact Or.inl (hr ▸ h)
  | callback _ hr => exact Or.inl (hr ▸ h)
  | start targets req _ hp hreq hf hr =>
    rw [hr] at h
    by_cases hi : i < s.requests.length
    · exact Or.inl (by rwa [List.getElem?_append_left hi] at h)
    · rw [List.getElem?_append_right (not_lt.1 hi), List.getElem?_singleton] at h
      split_ifs at h
      obtain rfl := Option.some.inj h
      exact Or.inr (Or.inl ⟨hp, by omega, targets, hreq, hf⟩)
  | @turn _ r _ req phase hreq hturn hr =>
    rw [hr, List.getElem?_set] at h
    split_ifs at h with hi hlt
    · obtain rfl := Option.some.inj h
      exact Or.inr (Or.inr ⟨req, hi ▸ hreq, hi ▸ hturn, rfl, rfl⟩)
    · exact Or.inl h

/-- A call that has given up its futures does not come back to them. -/
theorem not_awaits (hm : s.Moves op t) {i : ℕ} {req : Request} (h : s.requests[i]? = some req)
    (hp : ¬req.phase.Awaits) :
    ∃ req', t.requests[i]? = some req' ∧ req'.futures = req.futures ∧ ¬req'.phase.Awaits := by
  obtain ⟨hlt, -⟩ := List.getElem?_eq_some_iff.1 h
  cases hm with
  | quiet _ _ hr => exact ⟨req, hr ▸ h, rfl, hp⟩
  | callback _ hr => exact ⟨req, hr ▸ h, rfl, hp⟩
  | start targets new _ _ _ _ hr =>
    exact ⟨req, by rw [hr, List.getElem?_append_left hlt, h], rfl, hp⟩
  | @turn _ r _ old phase hreq hturn hr =>
    by_cases hi : r = i
    · subst hi
      obtain rfl := Option.some.inj (hreq.symm.trans h)
      refine ⟨{ old with phase }, by rw [hr, List.getElem?_set_self hlt], rfl, ?_⟩
      generalize t.loop.fwd = fwd at hturn
      cases hturn with
      | published hq => exact absurd (Or.inl hq) hp
      | gathered hq => exact absurd (Or.inr hq) hp
      | expired hq => exact absurd (Or.inr hq) hp
      | collected => simp [Phase.Awaits]
      | raised => simp [Phase.Awaits]
    · exact ⟨req, by rw [hr, List.getElem?_set_ne hi, h], rfl, hp⟩

/-- A step cancels futures of the call whose wait it ends, and no others. -/
theorem cancelled_cases (hm : s.Moves op t) (hk : s.loop.fwd.Keyed owner)
    (hc : t.loop.fwd.futures fut = .cancelled) :
    s.loop.fwd.futures fut = .cancelled ∨
      ∃ (r : ℕ) (req : Request), t.requests[r]? = some req ∧ (∃ e ∈ req.futures, e.2 = fut) ∧
        ¬req.phase.Awaits := by
  cases hm with
  | quiet _ hf => exact Or.inl (hf ▸ hc)
  | callback hl => exact Or.inl (Loop.cancelled_of_runCallback (hl ▸ hc))
  | start targets req _ _ _ hf =>
    rw [hf, futures_watchAll] at hc
    exact Or.inl hc
  | @turn _ r _ req phase hreq hturn hr =>
    obtain ⟨hlt, -⟩ := List.getElem?_eq_some_iff.1 hreq
    have hcancel : ¬phase.Awaits → (cancelAll s.loop.fwd req.futures).futures fut = .cancelled →
        s.loop.fwd.futures fut = .cancelled ∨
          ∃ (r : ℕ) (req : Request), t.requests[r]? = some req ∧ (∃ e ∈ req.futures, e.2 = fut) ∧
            ¬req.phase.Awaits := by
      intro hphase hcut
      by_cases hown : ∃ e ∈ req.futures, e.2 = fut
      · exact Or.inr ⟨r, { req with phase }, by rw [hr, List.getElem?_set_self hlt], hown, hphase⟩
      · rw [futures_cancelAll fun e he hfut => hown ⟨e, he, hfut⟩] at hcut
        exact Or.inl hcut
    generalize t.loop.fwd = fwd at hturn hc
    cases hturn with
    | published => exact Or.inl hc
    | gathered => exact Or.inl hc
    | expired => exact hcancel (by simp [Phase.Awaits]) hc
    | collected => exact Or.inl (by rwa [(keyed_dropAll hk _ _).2.2.2] at hc)
    | raised _ hfwd =>
      rcases hfwd with rfl | rfl
      · exact Or.inl hc
      · exact hcancel (by simp [Phase.Awaits]) hc

end Requests.Moves

end Step

section Run

variable {ch : Channels} {pre ops : List RequestOp} {key : ReportKey} {fut : ℕ}

theorem correlated_after (ch : Channels) (pre : List RequestOp) :
    ∃ owner, Correlated (requestsAfter ch pre) owner :=
  (correlated_run (correlated_init fun _ => ("", .none)) ch pre).1

theorem requestsAfter_snoc (ch : Channels) (pre : List RequestOp) (op : RequestOp) :
    requestsAfter ch (pre ++ [op]) = requestStep ch (requestsAfter ch pre) op :=
  run_snoc _ _ _ _

theorem moves_after (ch : Channels) (pre : List RequestOp) (op : RequestOp) :
    (requestsAfter ch pre).Moves op (requestsAfter ch (pre ++ [op])) := by
  obtain ⟨owner, hc⟩ := correlated_after ch pre
  rw [requestsAfter_snoc]
  exact moves_step hc ch op

theorem distinct_after (ch : Channels) (pre : List RequestOp) :
    (requestsAfter ch pre).loop.fwd.Distinct := by
  induction pre using List.reverseRecOn with
  | nil => exact distinct_init
  | append_singleton pre op ih =>
    obtain ⟨owner, hc⟩ := correlated_after ch pre
    exact (moves_after ch pre op).distinct hc.keyed ih

theorem future_created {i : ℕ} {req : Request} (h : (requestsAfter ch pre).requests[i]? = some req)
    {e : String × ℕ} (he : e ∈ req.futures) : e.2 < (requestsAfter ch pre).loop.fwd.created := by
  obtain ⟨owner, hc⟩ := correlated_after ch pre
  exact ((hc.requests req (List.mem_of_getElem? h)).2.2 e he).1

/-- Every future belongs to one call. -/
theorem holder_after (ch : Channels) (pre : List RequestOp) :
    ∃ holder : ℕ → ℕ, ∀ (i : ℕ) (req : Request), (requestsAfter ch pre).requests[i]? = some req →
      ∀ e ∈ req.futures, holder e.2 = i := by
  induction pre using List.reverseRecOn with
  | nil => exact ⟨id, fun i req h => by simp [requestsAfter] at h⟩
  | append_singleton pre op ih =>
    obtain ⟨holder, hold⟩ := ih
    refine ⟨fun n => if n < (requestsAfter ch pre).loop.fwd.created then holder n
      else (requestsAfter ch pre).requests.length, fun i req' h' e he => ?_⟩
    rcases (moves_after ch pre op).requests_cases h' with h | ⟨-, rfl, targets, hf, -⟩ |
      ⟨req, h, -, -, hf⟩
    · exact (if_pos (future_created h he)).trans (hold i req' h e he)
    · rw [hf] at he
      exact if_neg (not_lt.2 ((created_le_watchAll _ _).2 e he))
    · rw [hf] at he
      exact (if_pos (future_created h he)).trans (hold i req h e he)

theorem holder_unique {i j : ℕ} {req req' : Request}
    (h : (requestsAfter ch pre).requests[i]? = some req)
    (h' : (requestsAfter ch pre).requests[j]? = some req') {e e' : String × ℕ}
    (he : e ∈ req.futures) (he' : e' ∈ req'.futures) (heq : e.2 = e'.2) : i = j := by
  obtain ⟨holder, hold⟩ := holder_after ch pre
  rw [← hold i req h e he, heq, hold j req' h' e' he']

theorem unlisted_append (hlt : fut < (requestsAfter ch pre).loop.fwd.created)
    (hun : fut ∉ (requestsAfter ch pre).loop.fwd.listenersOf key) (post : List RequestOp) :
    fut < (requestsAfter ch (pre ++ post)).loop.fwd.created ∧
      fut ∉ (requestsAfter ch (pre ++ post)).loop.fwd.listenersOf key := by
  induction post using List.reverseRecOn with
  | nil => rw [List.append_nil]; exact ⟨hlt, hun⟩
  | append_singleton post op ih =>
    rw [← List.append_assoc]
    obtain ⟨owner, hc⟩ := correlated_after ch (pre ++ post)
    have hm := moves_after ch (pre ++ post) op
    refine ⟨ih.1.trans_le (hm.created_le hc.keyed), ?_⟩
    rcases hm.listed_iff hc.keyed (distinct_after _ _) ih.1 key with hiff | ⟨hno, -⟩
    · exact fun hmem => ih.2 (hiff.1 hmem)
    · exact hno

/-- A report of the key has been dispatched since the future was created. -/
def Answered (ch : Channels) (pre : List RequestOp) (fut : ℕ) (key : ReportKey) : Prop :=
  ∃ pre₁ pre₂, pre = pre₁ ++ .callback :: pre₂ ∧
    fut < (requestsAfter ch pre₁).loop.fwd.created ∧ (requestsAfter ch pre₁).loop.Delivers key

theorem Answered.append (h : Answered ch pre fut key) (post : List RequestOp) :
    Answered ch (pre ++ post) fut key := by
  obtain ⟨pre₁, pre₂, rfl, hlt, hd⟩ := h
  exact ⟨pre₁, pre₂ ++ post, by simp, hlt, hd⟩

theorem Answered.unlisted (h : Answered ch pre fut key) :
    fut ∉ (requestsAfter ch pre).loop.fwd.listenersOf key := by
  obtain ⟨pre₁, pre₂, rfl, hlt, hd⟩ := h
  obtain ⟨owner, hc⟩ := correlated_after ch pre₁
  have hm := moves_after ch pre₁ .callback
  have hun : fut ∉ (requestsAfter ch (pre₁ ++ [.callback])).loop.fwd.listenersOf key := by
    rw [requestsAfter_snoc, requestStep, (Loop.listenersOf_runCallback hc.keyed key).1 hd]
    exact List.not_mem_nil
  rw [List.append_cons]
  exact (unlisted_append (hlt.trans_le (hm.created_le hc.keyed)) hun pre₂).2

/-- A cancelled future belongs to a call that no longer counts on it. -/
theorem cancelled_after (ch : Channels) (pre : List RequestOp)
    (h : (requestsAfter ch pre).loop.fwd.futures fut = .cancelled) :
    ∃ (i : ℕ) (req : Request), (requestsAfter ch pre).requests[i]? = some req ∧
      (∃ e ∈ req.futures, e.2 = fut) ∧ ¬req.phase.Awaits := by
  induction pre using List.reverseRecOn with
  | nil => cases h
  | append_singleton pre op ih =>
    obtain ⟨owner, hc⟩ := correlated_after ch pre
    have hm := moves_after ch pre op
    rcases hm.cancelled_cases hc.keyed h with h | hnew
    · obtain ⟨i, req, hi, hfut, hp⟩ := ih h
      obtain ⟨req', hi', hf, hp'⟩ := hm.not_awaits hi hp
      exact ⟨i, req', hi', hf ▸ hfut, hp'⟩
    · exact hnew

/-- A call in progress finds each of its futures listed, unless it has been answered. -/
theorem listed_or_answered (ch : Channels) (pre : List RequestOp) {i : ℕ} {req : Request}
    (h : (requestsAfter ch pre).requests[i]? = some req) (hp : req.phase.Live) {e : String × ℕ}
    (he : e ∈ req.futures) :
    e.2 ∈ (requestsAfter ch pre).loop.fwd.listenersOf (req.topic, .str e.1) ∨
      Answered ch pre e.2 (req.topic, .str e.1) := by
  induction pre using List.reverseRecOn generalizing i req e with
  | nil => simp [requestsAfter] at h
  | append_singleton pre op ih =>
    obtain ⟨owner, hc⟩ := correlated_after ch pre
    have hm := moves_after ch pre op
    have hstep : ∀ old : Request, (requestsAfter ch pre).requests[i]? = some old →
        old.phase.Live → req.topic = old.topic → req.futures = old.futures →
        e.2 ∈ (requestsAfter ch (pre ++ [op])).loop.fwd.listenersOf (req.topic, .str e.1) ∨
          Answered ch (pre ++ [op]) e.2 (req.topic, .str e.1) := by
      intro old hold hlive ht hf
      have he' : e ∈ old.futures := hf ▸ he
      have hlt := future_created hold he'
      rw [ht]
      rcases ih hold hlive he' with hmem | hans
      · rcases hm.listed_iff hc.keyed (distinct_after ch pre) hlt (old.topic, .str e.1) with
          hiff | ⟨-, ⟨rfl, hd, -⟩ | ⟨r, other, -, hother, ⟨e', he₂, heq⟩, hfin⟩⟩
        · exact Or.inl (hiff.2 hmem)
        · exact Or.inr ⟨pre, [], rfl, hlt, hd⟩
        · -- its own cleanup would have ended the call
          obtain rfl := holder_unique hother hold he₂ he' heq
          obtain rfl := Option.some.inj (hfin.symm.trans h)
          exact absurd rfl hp.not_settled.1
      · exact Or.inr (hans.append [op])
    rcases hm.requests_cases h with hold | ⟨-, -, targets, hf, hfwd⟩ | ⟨old, hold, hturn, ht, hf⟩
    · exact hstep req hold hp rfl rfl
    · rw [hf] at he
      rw [hfwd, mem_listenersOf_watchAll]
      exact Or.inl (Or.inr ⟨e, he, rfl, rfl⟩)
    · refine hstep old hold ?_ ht hf
      generalize (requestsAfter ch (pre ++ [op])).loop.fwd = fwd at hturn
      generalize req.phase = phase at hturn hp
      cases hturn with
      | published hq => exact Or.inl hq
      | gathered => exact absurd rfl hp.not_settled.1
      | expired hq => exact Or.inr (Or.inl hq)
      | collected => exact absurd rfl hp.not_settled.1
      | raised => exact absurd rfl hp.not_settled.2

/-- A call that returned has left nothing behind: all its futures were resolved, or it
cleaned up after the timeout. -/
theorem finished_unlisted (ch : Channels) (pre : List RequestOp) {i : ℕ} {req : Request}
    (h : (requestsAfter ch pre).requests[i]? = some req) (hp : req.phase = .finished)
    {e : String × ℕ} (he : e ∈ req.futures) :
    e.2 ∉ (requestsAfter ch pre).loop.fwd.listenersOf (req.topic, .str e.1) := by
  induction pre using List.reverseRecOn generalizing i req e with
  | nil => simp [requestsAfter] at h
  | append_singleton pre op ih =>
    obtain ⟨owner, hc⟩ := correlated_after ch pre
    have hm := moves_after ch pre op
    rcases hm.requests_cases h with hold | ⟨hpub, -⟩ | ⟨old, hold, hturn, ht, hf⟩
    · exact (unlisted_append (future_created hold he) (ih hold hp he) [op]).2
    · rw [hp] at hpub
      cases hpub
    · rw [hf] at he
      rw [ht]
      rw [hp] at hturn
      generalize (requestsAfter ch (pre ++ [op])).loop.fwd = fwd at hturn
      cases hturn with
      | gathered hq hdone =>
        intro hmem
        have hnot : ((requestsAfter ch pre).loop.fwd.futures e.2).isPending = false := by
          simpa using List.all_eq_true.1 hdone e he
        cases hst : (requestsAfter ch pre).loop.fwd.futures e.2 with
        | pending => rw [hst] at hnot; cases hnot
        | resolved env => exact hc.keyed.unresolved _ _ hmem env hst
        | cancelled =>
          obtain ⟨j, other, hother, ⟨e', he', heq⟩, hn⟩ := cancelled_after ch pre hst
          obtain rfl := holder_unique hother hold he' he heq
          obtain rfl := Option.some.inj (hother.symm.trans hold)
          exact hn (Or.inr hq)
      | collected hq =>
        rw [mem_listenersOf_dropAll (distinct_after ch pre)]
        exact fun hc => hc.2 ⟨e, he, rfl, rfl⟩

theorem failed_raised (ch : Channels) (pre : List RequestOp) {i : ℕ} {req : Request}
    (h : (requestsAfter ch pre).requests[i]? = some req) (hp : req.phase = .failed) :
    ∃ pre₁ op old, pre₁ ++ [op] <+: pre ∧ (requestsAfter ch pre₁).Raises op i old ∧
      req.topic = old.topic ∧ req.futures = old.futures := by
  induction pre using List.reverseRecOn generalizing i req with
  | nil => simp [requestsAfter] at h
  | append_singleton pre op ih =>
    rcases (moves_after ch pre op).requests_cases h with hold | ⟨hpub, -⟩ |
      ⟨old, hold, hturn, ht, hf⟩
    · obtain ⟨pre₁, op₁, old, hpre, hr⟩ := ih hold hp
      exact ⟨pre₁, op₁, old, hpre.trans (List.prefix_append _ _), hr⟩
    · rw [hp] at hpub
      cases hpub
    · rw [hp] at hturn
      cases hturn with
      | raised hr => exact ⟨pre, op, old, List.prefix_rfl, hr, ht, hf⟩

end Run

/-- No future of a call that has returned or raised is listed. -/
def Clean (s : Requests) : Prop :=
  ∀ req ∈ s.requests, req.phase = .finished ∨ req.phase = .failed →
    ∀ e ∈ req.futures, ∀ key, e.2 ∉ s.loop.fwd.listenersOf key

/-- A step leaves the listeners of the calls it is not a step of as they are, apart from
those a dispatched report takes off, which it resolves if they are pending. -/
def LeavesOthers (s t : Requests) (op : RequestOp) : Prop :=
  ∀ (i : ℕ) (req : Request), s.requests[i]? = some req → op.caller ≠ some i →
    ∀ e ∈ req.futures, ∀ key,
      (e.2 ∈ t.loop.fwd.listenersOf key ↔ e.2 ∈ s.loop.fwd.listenersOf key) ∨
        op = .callback ∧ e.2 ∉ t.loop.fwd.listenersOf key ∧
          ∃ job, s.loop.callbacks.jobs.head? = some job ∧ reportKey job.2 = .ok (some key) ∧
            ((s.loop.fwd.futures e.2).isPending → t.loop.fwd.futures e.2 = .resolved job.2)

/-- The calls of a run clean up behind themselves, and only behind themselves. -/
def CleansUp (ch : Channels) (ops : List RequestOp) : Prop :=
  (∀ pre, pre <+: ops → Clean (requestsAfter ch pre)) ∧
    ∀ pre op, pre ++ [op] <+: ops →
      LeavesOthers (requestsAfter ch pre) (requestsAfter ch (pre ++ [op])) op

theorem leavesOthers_after (ch : Channels) (pre : List RequestOp) (op : RequestOp) :
    LeavesOthers (requestsAfter ch pre) (requestsAfter ch (pre ++ [op])) op := by
  intro i req hreq hcaller e he key
  obtain ⟨owner, hc⟩ := correlated_after ch pre
  by_cases hmem : e.2 ∈ (requestsAfter ch pre).loop.fwd.listenersOf key
  · rcases (moves_after ch pre op).listed_iff hc.keyed (distinct_after ch pre)
      (future_created hreq he) key with hiff | ⟨hno, ⟨rfl, ⟨job, hh, hr⟩, hl⟩ |
        ⟨r, other, rfl, hother, ⟨e', he', heq⟩, -⟩⟩
    · exact Or.inl hiff
    · refine Or.inr ⟨rfl, hno, job, hh, hr, fun hpend => ?_⟩
      rw [hl]
      exact (Loop.runCallback_resolves hh hr (List.mem_filter.2 ⟨hmem, hpend⟩)).1
    · exact absurd (congrArg some (holder_unique hother hreq he' he heq)) hcaller
  · rcases (moves_after ch pre op).listed_iff hc.keyed (distinct_after ch pre)
      (future_created hreq he) key with hiff | ⟨hno, -⟩
    · exact Or.inl hiff
    · exact Or.inl ⟨fun h => absurd h hno, fun h => absurd h hmem⟩

/-- An exception leaves the listeners of its call where they are. -/
theorem raises_step {ch : Channels} {pre : List RequestOp} {op : RequestOp} {i : ℕ} {req : Request}
    (h : (requestsAfter ch pre).Raises op i req) :
    (requestsAfter ch (pre ++ [op])).requests[i]? = some { req with phase := .failed } ∧
      ∀ e ∈ req.futures, ∀ key, e.2 ∈ (requestsAfter ch pre).loop.fwd.listenersOf key →
        e.2 ∈ (requestsAfter ch (pre ++ [op])).loop.fwd.listenersOf key := by
  obtain ⟨owner, hc⟩ := correlated_after ch pre
  have hm := moves_after ch pre op
  obtain ⟨hlt, -⟩ := List.getElem?_eq_some_iff.1 h.get.1
  constructor
  · rw [requestsAfter_snoc]
    cases h with
    | publish hr hp =>
      have hin : (requestsAfter ch pre).inPhase i .publishing = some req := by
        rw [Requests.inPhase, hr, Option.filter_some, if_pos (by simp [hp])]
      simp only [requestStep, hin, Requests.setPhase, List.getElem?_set_self hlt]
    | cancelled hr hp =>
      rcases hp with hp | hp | hp <;>
        simp [requestStep, Requests.abort, hr, hp, Requests.setPhase, List.getElem?_set_self hlt]
  · intro e he key hmem
    rcases hm.listed_iff hc.keyed (distinct_after ch pre)
      (future_created h.get.1 he) key with hiff | ⟨-, ⟨rfl, -⟩ | ⟨r, other, rfl, -⟩⟩
    · exact hiff.2 hmem
    · cases h
    · cases h

/-- The calls of a run leave no listener behind exactly when every call that an exception
leaves has been answered for all its targets by then. -/
theorem listeners_cleaned_iff (ch : Channels) (ops : List RequestOp) :
    CleansUp ch ops ↔
      ∀ pre op i req, pre ++ [op] <+: ops → (requestsAfter ch pre).Raises op i req →
        ∀ e ∈ req.futures, Answered ch pre e.2 (req.topic, .str e.1) := by
  constructor
  · rintro ⟨hclean, -⟩ pre op i req hpre hraise e he
    obtain ⟨hfailed, hstay⟩ := raises_step hraise
    rcases listed_or_answered ch pre hraise.get.1 hraise.live he with hmem | hans
    · exact absurd (hstay e he _ hmem)
        (hclean _ hpre _ (List.mem_of_getElem? hfailed) (Or.inr rfl) e he _)
    · exact hans
  · intro h
    refine ⟨fun pre hpre req hreq hphase e he key hmem => ?_,
      fun pre op _ => leavesOthers_after ch pre op⟩
    obtain ⟨i, hi⟩ := List.getElem?_of_mem hreq
    obtain ⟨owner, hc⟩ := correlated_after ch pre
    -- a listed future is listed under the key it was registered with
    obtain rfl : (req.topic, HashKey.str e.1) = key :=
      ((hc.requests req hreq).2.2 e he).2.symm.trans (hc.keyed.listed key e.2 hmem).1
    rcases hphase with hphase | hphase
    · exact finished_unlisted ch pre hi hphase he hmem
    · obtain ⟨pre₁, op, old, hpre₁, hraise, ht, hf⟩ := failed_raised ch pre hi hphase
      have hans := h pre₁ op i old (hpre₁.trans hpre) hraise e (hf ▸ he)
      obtain ⟨post, rfl⟩ := (List.prefix_append pre₁ [op]).trans hpre₁
      exact (hans.append post).unlisted (ht ▸ hmem)

/-- An operator asks for `h` from the sandbox channel, and the publish raises. -/
def failedPublish : List RequestOp :=
  [.start (Dict.empty.set "h" "sandbox") (some 1) .positions (some "h"), .publishFails 0]

/-- The future stays listed, and the next periodic report of `h` is not sent. -/
theorem failed_publish_leaves_listener :
    ¬CleansUp ⟨1, 2, 3⟩ failedPublish ∧
      (requestsAfter ⟨1, 2, 3⟩ (failedPublish ++ [.intake positionsReport 3])).loop.sends = [] := by
  refine ⟨fun h => ?_, rfl⟩
  refine h.1 failedPublish List.prefix_rfl ⟨1, "tinohelm.report.positions", [("h", 0)], .failed⟩
    ?_ (Or.inr rfl) ("h", 0) (by decide) ("tinohelm.report.positions", .str "h") (by decide)
  exact List.mem_of_getElem? (i := 0) rfl

end TinoHelm

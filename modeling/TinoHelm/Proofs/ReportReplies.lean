import TinoHelm.Proofs.ReportDelivery
import TinoHelm.Spec.Requests

/-! Where the reply of a report request ends up. A future only ever holds an envelope
of the key it was registered under, so the final `enqueue` of a request looks that key
up again, and is sent exactly when nobody is listed there at that moment. -/

namespace TinoHelm
open Base

namespace Forwarder

/-- Every future belongs to one key: it is listed there at most until it is resolved,
and what resolves it carries that key. -/
structure Keyed (f : Forwarder) (owner : ℕ → ReportKey) : Prop where
  listed : ∀ key, ∀ fut ∈ f.listenersOf key, owner fut = key ∧ fut < f.created
  unresolved : ∀ key, ∀ fut ∈ f.listenersOf key, ∀ env, f.futures fut ≠ .resolved env
  resolved : ∀ fut env, f.futures fut = .resolved env →
    fut < f.created ∧ reportKey env = .ok (some (owner fut))

variable {f f' : Forwarder} {owner : ℕ → ReportKey}

theorem keyed_init : Keyed {} owner := by
  refine ⟨fun key fut h => ?_, fun key fut h => ?_, fun fut env h => ?_⟩
  · simp [listenersOf] at h
  · simp [listenersOf] at h
  · cases h

theorem Keyed.watch (h : Keyed f owner) (topic sid : String) :
    Keyed (f.watchReport topic sid).1 (Function.update owner f.created (topic, .str sid)) := by
  have hold : ∀ fut < f.created,
      Function.update owner f.created (topic, HashKey.str sid) fut = owner fut :=
    fun fut hlt => Function.update_of_ne (Nat.ne_of_lt hlt) _ _
  -- the new future is listed under its key and nowhere else
  have hmem : ∀ key, ∀ fut ∈ (f.watchReport topic sid).1.listenersOf key,
      fut ∈ f.listenersOf key ∨ (key = (topic, .str sid) ∧ fut = f.created) := by
    intro key fut hf
    rw [listenersOf_watchReport] at hf
    split_ifs at hf with hk
    · rw [List.mem_append, List.mem_singleton] at hf
      exact hf.imp_right fun hc => ⟨hk, hc⟩
    · exact Or.inl hf
  refine ⟨fun key fut hf => ?_, fun key fut hf env => ?_, fun fut env hr => ?_⟩
  · rcases hmem key fut hf with hf | ⟨rfl, rfl⟩
    · obtain ⟨ho, hlt⟩ := h.listed key fut hf
      exact ⟨(hold fut hlt).trans ho, Nat.lt_succ_of_lt hlt⟩
    · exact ⟨Function.update_self .., Nat.lt_succ_self _⟩
  · rcases hmem key fut hf with hf | ⟨-, rfl⟩
    · exact h.unresolved key fut hf env
    · exact fun hr => absurd (h.resolved _ env hr).1 (Nat.lt_irrefl _)
  · obtain ⟨hlt, hk⟩ := h.resolved fut env hr
    exact ⟨Nat.lt_succ_of_lt hlt, by rw [hk, hold fut hlt]⟩

theorem created_dropReportListener (f : Forwarder) (topic sid : String) (future : ℕ) :
    (f.dropReportListener topic sid future).created = f.created := by
  unfold dropReportListener
  dsimp only
  split_ifs <;> rfl

theorem Keyed.drop (h : Keyed f owner) (topic sid : String) (future : ℕ) :
    Keyed (f.dropReportListener topic sid future) owner := by
  have hmem : ∀ key, ∀ fut ∈ (f.dropReportListener topic sid future).listenersOf key,
      fut ∈ f.listenersOf key := by
    intro key fut hf
    rw [listenersOf_dropReportListener] at hf
    split_ifs at hf
    · exact List.mem_of_mem_erase hf
    · exact hf
  refine ⟨fun key fut hf => ?_, fun key fut hf => ?_, fun fut env hr => ?_⟩
  · rw [created_dropReportListener]
    exact h.listed key fut (hmem key fut hf)
  · rw [futures_dropReportListener]
    exact h.unresolved key fut (hmem key fut hf)
  · rw [futures_dropReportListener] at hr
    rw [created_dropReportListener]
    exact h.resolved fut env hr

theorem created_cancel (f : Forwarder) (future : ℕ) : (f.cancel future).created = f.created := by
  unfold cancel
  split_ifs <;> rfl

theorem Keyed.cancel (h : Keyed f owner) (future : ℕ) : Keyed (f.cancel future) owner := by
  have hres : ∀ fut env, (f.cancel future).futures fut = .resolved env →
      f.futures fut = .resolved env := by
    intro fut env hr
    rw [futures_cancel] at hr
    split_ifs at hr
    exact hr
  refine ⟨fun key fut hf => ?_, fun key fut hf env hr => ?_, fun fut env hr => ?_⟩
  · rw [listenersOf_cancel] at hf
    rw [created_cancel]
    exact h.listed key fut hf
  · rw [listenersOf_cancel] at hf
    exact h.unresolved key fut hf env (hres fut env hr)
  · rw [created_cancel]
    exact h.resolved fut env (hres fut env hr)

/-- A future belongs to one key, so a dispatch to another one does not wake it. -/
theorem Keyed.not_woken (h : Keyed f owner) {env : EventEnvelope} {key : ReportKey}
    (hkey : reportKey env ≠ .ok (some key)) {fut : ℕ} (hf : fut ∈ f.listenersOf key) :
    fut ∉ (f.dispatched env).2 := by
  rw [mem_woken]
  rintro ⟨⟨k, hk, hmem⟩, -⟩
  obtain rfl : k = key := (h.listed k fut hmem).1.symm.trans (h.listed key fut hf).1
  exact hkey hk

theorem Keyed.dispatched (h : Keyed f owner) (env : EventEnvelope) :
    Keyed (f.dispatched env).1 owner := by
  -- what is still listed is of another key
  have hkept : ∀ key, ∀ fut ∈ (f.dispatched env).1.listenersOf key,
      reportKey env ≠ .ok (some key) ∧ fut ∈ f.listenersOf key := by
    intro key fut hf
    by_cases hk : reportKey env = .ok (some key)
    · rw [(f.listenersOf_dispatched env key).1 hk] at hf
      exact absurd hf List.not_mem_nil
    · rw [(f.listenersOf_dispatched env key).2 hk] at hf
      exact ⟨hk, hf⟩
  refine ⟨fun key fut hf => ?_, fun key fut hf e => ?_, fun fut e hr => ?_⟩
  · rw [created_dispatched]
    exact h.listed key fut (hkept key fut hf).2
  · obtain ⟨hk, hmem⟩ := hkept key fut hf
    rw [futures_dispatched, if_neg (h.not_woken hk hmem)]
    exact h.unresolved key fut hmem e
  · rw [created_dispatched]
    rw [futures_dispatched] at hr
    split_ifs at hr with hw
    · cases hr
      obtain ⟨⟨key, hk, hmem⟩, -⟩ := (mem_woken f _ fut).1 hw
      obtain ⟨ho, hlt⟩ := h.listed key fut hmem
      exact ⟨hlt, by rw [hk, ho]⟩
    · exact h.resolved fut e hr

end Forwarder

open Forwarder

theorem keyed_runCallback {s : Loop} {owner : ℕ → ReportKey} (h : s.fwd.Keyed owner) :
    s.runCallback.fwd.Keyed owner ∧ s.runCallback.fwd.created = s.fwd.created := by
  cases hh : s.callbacks.jobs.head? with
  | none =>
    rw [Loop.runCallback_idle hh]
    exact ⟨h, rfl⟩
  | some job =>
    rw [Loop.runCallback_job hh]
    exact ⟨h.dispatched job.2, created_dispatched s.fwd job.2⟩

namespace Loop

variable {s : Loop}

/-- One callback empties the list of its own key and leaves the other keys alone. -/
theorem runCallback_key {owner : ℕ → ReportKey} (hk : s.fwd.Keyed owner) {j : ℕ × EventEnvelope}
    {rest : List (ℕ × EventEnvelope)} (hj : s.callbacks.jobs = j :: rest) (key : ReportKey) :
    s.runCallback.callbacks.jobs = rest ∧
      (Forwarder.reportKey j.2 = .ok (some key) → s.runCallback.fwd.listenersOf key = []) ∧
      (Forwarder.reportKey j.2 ≠ .ok (some key) →
        s.runCallback.fwd.listenersOf key = s.fwd.listenersOf key ∧
        ∀ fut ∈ s.fwd.listenersOf key, s.runCallback.fwd.futures fut = s.fwd.futures fut) := by
  have hh : s.callbacks.jobs.head? = some j := by rw [hj, List.head?_cons]
  obtain ⟨hown, hother⟩ := s.fwd.listenersOf_dispatched j.2 key
  rw [runCallback_job hh]
  refine ⟨by rw [Fifo.jobs_tail, hj, List.tail_cons], hown, fun hne => ⟨hother hne, ?_⟩⟩
  intro fut hf
  dsimp only
  rw [futures_dispatched, if_neg (hk.not_woken hne hf)]

theorem runCallback_resolves {n : ℕ} {env : EventEnvelope} {key : ReportKey}
    (hh : s.callbacks.jobs.head? = some (n, env))
    (hr : Forwarder.reportKey env = .ok (some key)) {fut : ℕ}
    (hf : fut ∈ s.fwd.waiting key) :
    s.runCallback.fwd.futures fut = .resolved env ∧ ⟨n, fut⟩ ∈ s.runCallback.wakes := by
  rw [Forwarder.waiting, List.mem_filter] at hf
  have hw : fut ∈ (s.fwd.dispatched env).2 := (mem_woken s.fwd env fut).2 ⟨⟨key, hr, hf.1⟩, hf.2⟩
  rw [runCallback_job hh]
  dsimp only
  rw [futures_dispatched, if_pos hw]
  exact ⟨rfl, List.mem_append_right _ (List.mem_map_of_mem hw)⟩

end Loop

theorem keyed_watchAll {f : Forwarder} {owner : ℕ → ReportKey} (h : f.Keyed owner) (topic : String)
    (targets : List String) :
    ∃ owner', (watchAll f topic targets).1.Keyed owner' ∧
      (∀ n < f.created, owner' n = owner n) ∧
      f.created ≤ (watchAll f topic targets).1.created ∧
      (watchAll f topic targets).1.closed = f.closed ∧
      (watchAll f topic targets).2.map Prod.fst = targets ∧
      ∀ e ∈ (watchAll f topic targets).2,
        e.2 < (watchAll f topic targets).1.created ∧ owner' e.2 = (topic, .str e.1) := by
  induction targets generalizing f owner with
  | nil => exact ⟨owner, h, fun _ _ => rfl, le_rfl, rfl, rfl, by simp [watchAll]⟩
  | cons sid targets ih =>
    obtain ⟨owner', hk, hold, hle, hcl, hmap, hnew⟩ := ih (h.watch topic sid)
    have hlt : f.created < (f.watchReport topic sid).1.created := Nat.lt_succ_self _
    have hself : owner' f.created = (topic, .str sid) := by
      rw [hold _ hlt, Function.update_self]
    refine ⟨owner', hk, fun n hn => ?_, hlt.le.trans hle, hcl, ?_, ?_⟩
    · rw [hold n (hn.trans hlt), Function.update_of_ne (Nat.ne_of_lt hn)]
    · rw [watchAll, List.map_cons, hmap]
    · intro e he
      rcases List.mem_cons.1 he with rfl | he
      · exact ⟨hlt.trans_le hle, hself⟩
      · exact hnew e he

theorem keyed_cancelAll {f : Forwarder} {owner : ℕ → ReportKey} (h : f.Keyed owner)
    (futures : List (String × ℕ)) :
    (cancelAll f futures).Keyed owner ∧ (cancelAll f futures).created = f.created ∧
      (cancelAll f futures).closed = f.closed := by
  induction futures generalizing f with
  | nil => exact ⟨h, rfl, rfl⟩
  | cons e futures ih =>
    obtain ⟨hk, hc, hcl⟩ := ih (h.cancel e.2)
    exact ⟨hk, hc.trans (created_cancel f e.2), hcl.trans (closed_cancel f e.2)⟩

theorem keyed_dropAll {f : Forwarder} {owner : ℕ → ReportKey} (h : f.Keyed owner)
    (topic : String) (futures : List (String × ℕ)) :
    (dropAll f topic futures).Keyed owner ∧ (dropAll f topic futures).created = f.created ∧
      (dropAll f topic futures).closed = f.closed ∧
      (dropAll f topic futures).futures = f.futures := by
  induction futures generalizing f with
  | nil => exact ⟨h, rfl, rfl, rfl⟩
  | cons e futures ih =>
    obtain ⟨hk, hc, hcl, hf⟩ := ih (h.drop topic e.1 e.2)
    exact ⟨hk, hc.trans (created_dropReportListener f topic e.1 e.2),
      hcl.trans (closed_dropReportListener f topic e.1 e.2),
      hf.trans (futures_dropReportListener f topic e.1 e.2)⟩

theorem listenersOf_dropAll {f : Forwarder} {topic : String} {futures : List (String × ℕ)}
    {key : ReportKey}
    (h : ∀ e ∈ futures, key = (topic, .str e.1) → e.2 ∉ f.listenersOf key) :
    (dropAll f topic futures).listenersOf key = f.listenersOf key := by
  induction futures generalizing f with
  | nil => rfl
  | cons e futures ih =>
    have he : (f.dropReportListener topic e.1 e.2).listenersOf key = f.listenersOf key := by
      rw [listenersOf_dropReportListener]
      split_ifs with hk
      · exact List.erase_of_not_mem (h e List.mem_cons_self hk)
      · rfl
    rw [← he]
    exact ih fun e' he' hk => he ▸ h e' (List.mem_cons_of_mem e he') hk

theorem postReplies_frame {s : Loop} (ho : s.Ordered) (channelId : ℤ)
    (replies : List (String × FutureState)) :
    (postReplies s channelId replies).1.fwd = s.fwd ∧
      s.Extends (postReplies s channelId replies).1 ∧
      (postReplies s channelId replies).1.Ordered ∧
      ((postReplies s channelId replies).2.map Prod.fst).Sublist (replies.map Prod.fst) := by
  induction replies generalizing s with
  | nil => exact ⟨rfl, .refl s, ho, List.nil_sublist _⟩
  | cons e replies ih =>
    obtain ⟨sid, status⟩ := e
    cases status with
    | pending | cancelled =>
      obtain ⟨hf, hext, ho', hsub⟩ := ih ho
      exact ⟨hf, hext, ho', hsub.cons sid⟩
    | resolved env =>
      cases hs : s.enqueue env channelId with
      | error e =>
        simp only [postReplies, hs]
        exact ⟨trivial, .refl s, ho, List.nil_sublist _⟩
      | ok s' =>
        obtain ⟨hf, hext, ho', hsub⟩ := ih (ho.enqueue hs)
        obtain ⟨-, -, hfwd, -⟩ := Loop.enqueue_cases hs
        simp only [postReplies, hs]
        exact ⟨hf.trans hfwd, (Loop.extends_enqueue hs).trans hext, ho', hsub.cons_cons sid⟩

/-- The reply for one target: one call of `enqueue`, sent unless somebody is listed. -/
theorem postReplies_sends {s : Loop} (ho : s.Ordered) (hopen : s.fwd.closed = false)
    (channelId : ℤ) {topic : String} (ht : topic ∈ onDemandReportTopics)
    {replies : List (String × FutureState)} (hn : (replies.map Prod.fst).Nodup)
    (hk : ∀ e ∈ replies, ∀ env, e.2 = .resolved env → reportKey env = .ok (some (topic, .str e.1)))
    {sid : String} {env : EventEnvelope} (hr : (sid, .resolved env) ∈ replies) :
    ∃ ticket, (postReplies s channelId replies).2.filter (fun e => e.1 = sid) = [(sid, ticket)] ∧
      ticket < (postReplies s channelId replies).1.ticket ∧
      (postReplies s channelId replies).1.sendsOf ticket =
        if s.fwd.listenersOf (topic, .str sid) = [] then [⟨ticket, env, channelId⟩] else [] := by
  induction replies generalizing s with
  | nil => simp at hr
  | cons e replies ih =>
    obtain ⟨sid', status⟩ := e
    rw [List.map_cons, List.nodup_cons] at hn
    have hk' : ∀ e ∈ replies, ∀ env, e.2 = .resolved env →
        reportKey env = .ok (some (topic, .str e.1)) :=
      fun e he => hk e (List.mem_cons_of_mem _ he)
    cases status with
    | pending | cancelled =>
      have hr' : (sid, .resolved env) ∈ replies := by simpa using hr
      exact ih ho hopen hn.2 hk' hr'
    | resolved env' =>
      have hkey := hk _ List.mem_cons_self env' rfl
      have hdec := enqueue_key (by rwa [← reportKey_topic hkey]) hkey hopen
      obtain ⟨s', hs⟩ := Loop.enqueue_ok hdec channelId
      have ho' := ho.enqueue hs
      obtain ⟨-, -, hfwd, -⟩ := Loop.enqueue_cases hs
      obtain ⟨hf, hext, -, hsub⟩ := postReplies_frame ho' channelId replies
      simp only [postReplies, hs]
      rcases List.mem_cons.1 hr with heq | hr'
      · obtain ⟨rfl, hst⟩ := Prod.mk.inj heq
        obtain rfl : env = env' := by injection hst
        have hlt : s.ticket < s'.ticket := by
          rw [Loop.ticket_enqueue hs]
          exact Nat.lt_succ_self _
        refine ⟨s.ticket, ?_, hlt.trans_le hext.ticket, ?_⟩
        · rw [List.filter_cons_of_pos (by simp)]
          have hnot : ∀ e ∈ (postReplies s' channelId replies).2, ¬(decide (e.1 = sid)) = true := by
            intro e he hsid
            rw [decide_eq_true_eq] at hsid
            exact hn.1 (hsid ▸ hsub.subset (List.mem_map_of_mem he))
          rw [List.filter_eq_nil_iff.2 hnot]
        · rw [hext.sends _ hlt, ho.sendsOf_enqueue hdec hs]
          simp
      · have hne : sid' ≠ sid := fun h => hn.1 (List.mem_map.2 ⟨_, hr', h.symm⟩)
        obtain ⟨t, hpost, hlt, hsends⟩ := ih ho' (by rw [hfwd, hopen]) hn.2 hk' hr'
        refine ⟨t, ?_, hlt, ?_⟩
        · rw [List.filter_cons_of_neg (by simpa using hne), hpost]
        · rw [hsends, hfwd]

/-- Every future of a request belongs to the request's topic and its target. -/
structure Correlated (s : Requests) (owner : ℕ → ReportKey) : Prop where
  keyed : s.loop.fwd.Keyed owner
  ordered : s.loop.Ordered
  isOpen : s.loop.fwd.closed = false
  requests : ∀ req ∈ s.requests, req.topic ∈ onDemandReportTopics ∧
    (req.futures.map Prod.fst).Nodup ∧
    ∀ e ∈ req.futures, e.2 < s.loop.fwd.created ∧ owner e.2 = (req.topic, .str e.1)

theorem correlated_init (owner : ℕ → ReportKey) : Correlated {} owner :=
  ⟨keyed_init, Loop.ordered_init, rfl, by simp⟩

/-- Requests only change their phase, and futures are only added. -/
theorem Correlated.update {s : Requests} {owner : ℕ → ReportKey} (h : Correlated s owner)
    {loop : Loop} {requests : List Request} (hk : loop.fwd.Keyed owner) (ho : loop.Ordered)
    (hcl : loop.fwd.closed = s.loop.fwd.closed) (hc : loop.fwd.created = s.loop.fwd.created)
    (hr : ∀ req ∈ requests, ∃ old ∈ s.requests, req.topic = old.topic ∧ req.futures = old.futures) :
    Correlated ⟨loop, requests⟩ owner := by
  refine ⟨hk, ho, hcl.trans h.isOpen, fun req hreq => ?_⟩
  obtain ⟨old, hold, ht, hf⟩ := hr req hreq
  rw [ht, hf, hc]
  exact h.requests old hold

theorem inPhase_mem {s : Requests} {r : ℕ} {phase : Phase} {req : Request}
    (h : s.inPhase r phase = some req) : req ∈ s.requests := by
  rw [Requests.inPhase, Option.filter_eq_some_iff] at h
  exact List.mem_of_getElem? h.1

theorem mem_setPhase {s : Requests} {r : ℕ} {req : Request} {phase : Phase}
    (h : req ∈ s.requests) :
    ∀ req' ∈ (s.setPhase r req phase).requests,
      ∃ old ∈ s.requests, req'.topic = old.topic ∧ req'.futures = old.futures := by
  intro req' h'
  rcases List.mem_or_eq_of_mem_set h' with h' | rfl
  · exact ⟨req', h', rfl, rfl⟩
  · exact ⟨req, h, rfl, rfl⟩

theorem Correlated.setPhase {s : Requests} {owner : ℕ → ReportKey} (h : Correlated s owner)
    {r : ℕ} {req : Request} (hr : req ∈ s.requests) (phase : Phase) :
    Correlated (s.setPhase r req phase) owner :=
  h.update h.keyed h.ordered rfl rfl (mem_setPhase hr)

theorem Correlated.cancelAll {s : Requests} {owner : ℕ → ReportKey} (h : Correlated s owner)
    {r : ℕ} {req : Request} (hr : req ∈ s.requests) (phase : Phase) :
    Correlated ({ s with
      loop := { s.loop with fwd := cancelAll s.loop.fwd req.futures } }.setPhase r req phase)
      owner := by
  obtain ⟨hk, hc, hcl⟩ := keyed_cancelAll h.keyed req.futures
  exact h.update hk (h.ordered.fwd _) hcl hc (mem_setPhase hr)

theorem reportTopic_onDemand (kind : ReportCommand) :
    kind.reportTopic ∈ onDemandReportTopics := by
  cases kind <;> decide

theorem Correlated.start {s : Requests} {owner : ℕ → ReportKey} (h : Correlated s owner)
    (ch : Channels) (registry : Registry) (channelId : Option ℤ) (kind : ReportCommand)
    (strategy : Option String) :
    ∃ owner', Correlated (s.start ch registry channelId kind strategy) owner' := by
  unfold Requests.start
  cases channelId with
  | none => exact ⟨owner, h⟩
  | some id =>
    cases ht : requestTargets ch registry (some id) strategy with
    | error e => exact ⟨owner, h⟩
    | ok targets =>
      obtain ⟨owner', hk, hold, hle, hcl, hmap, hnew⟩ :=
        keyed_watchAll h.keyed kind.reportTopic targets
      refine ⟨owner', hk, h.ordered.fwd _, hcl.trans h.isOpen, fun req hreq => ?_⟩
      rcases List.mem_append.1 hreq with hreq | hreq
      · obtain ⟨htopic, hnodup, hfut⟩ := h.requests req hreq
        refine ⟨htopic, hnodup, fun e he => ⟨(hfut e he).1.trans_le hle, ?_⟩⟩
        rw [hold _ (hfut e he).1, (hfut e he).2]
      · rw [List.mem_singleton.1 hreq]
        refine ⟨reportTopic_onDemand kind, ?_, hnew⟩
        dsimp only
        rw [hmap]
        exact requestTargets_nodup ht

/-- What the end of a wait says about the request and the loop it posts on. -/
theorem waitEnds_cases {s : Requests} {op : RequestOp} {r : ℕ} {req : Request} {loop : Loop}
    (h : s.waitEnds op = some (r, req, loop)) (ch : Channels) :
    req ∈ s.requests ∧ requestStep ch s op = s.finish (some (r, req, loop)) ∧
      (loop = s.loop ∨
        loop = { s.loop with fwd := dropAll s.loop.fwd req.topic req.futures }) := by
  cases op with
  | gathered n =>
    have hstep : requestStep ch s (.gathered n) = s.finish (some (r, req, loop)) := by
      rw [← h]
      rfl
    simp only [Requests.waitEnds] at h
    cases hp : s.inPhase n .waiting with
    | none => simp [hp] at h
    | some q =>
      simp only [hp] at h
      split_ifs at h
      cases h
      exact ⟨inPhase_mem hp, hstep, Or.inl rfl⟩
  | collect n =>
    have hstep : requestStep ch s (.collect n) = s.finish (some (r, req, loop)) := by
      rw [← h]
      rfl
    simp only [Requests.waitEnds] at h
    cases hp : s.inPhase n .expired with
    | none => simp [hp] at h
    | some q =>
      simp only [hp] at h
      cases h
      exact ⟨inPhase_mem hp, hstep, Or.inr rfl⟩
  | _ => cases h

theorem Correlated.closing {s : Requests} {owner : ℕ → ReportKey} (h : Correlated s owner)
    {op : RequestOp} {r : ℕ} {req : Request} {loop : Loop}
    (hw : s.waitEnds op = some (r, req, loop)) :
    loop.fwd.Keyed owner ∧ loop.Ordered ∧ loop.fwd.closed = false ∧
      loop.fwd.created = s.loop.fwd.created ∧ loop.fwd.futures = s.loop.fwd.futures ∧
      s.loop.Extends loop := by
  obtain ⟨-, -, rfl | rfl⟩ := waitEnds_cases hw ⟨0, 0, 0⟩
  · exact ⟨h.keyed, h.ordered, h.isOpen, rfl, rfl, .refl _⟩
  · obtain ⟨hk, hc, hcl, hf⟩ := keyed_dropAll h.keyed req.topic req.futures
    exact ⟨hk, h.ordered.fwd _, hcl.trans h.isOpen, hc, hf, s.loop.extends_fwd _⟩

theorem Correlated.finish {s : Requests} {owner : ℕ → ReportKey} (h : Correlated s owner)
    {op : RequestOp} : Correlated (s.finish (s.waitEnds op)) owner ∧
      s.loop.Extends (s.finish (s.waitEnds op)).loop := by
  cases hw : s.waitEnds op with
  | none => exact ⟨h, .refl _⟩
  | some w =>
    obtain ⟨r, req, loop⟩ := w
    obtain ⟨hk, ho, hcl, hc, -, hext⟩ := h.closing hw
    obtain ⟨hreq, -, -⟩ := waitEnds_cases hw ⟨0, 0, 0⟩
    obtain ⟨hf, hext', ho', -⟩ := postReplies_frame ho req.channelId (req.replies loop.fwd)
    refine ⟨h.update ?_ ho' ?_ ?_ (mem_setPhase hreq), hext.trans hext'⟩
    · rw [hf]
      exact hk
    · rw [hf, hcl, h.isOpen]
    · rw [hf, hc]

theorem Correlated.callback {s : Requests} {owner : ℕ → ReportKey} (h : Correlated s owner) :
    Correlated { s with loop := s.loop.runCallback } owner := by
  obtain ⟨hk, hc⟩ := keyed_runCallback h.keyed
  exact h.update hk h.ordered.runCallback s.loop.closed_runCallback hc
    fun req hr => ⟨req, hr, rfl, rfl⟩

theorem Correlated.intake {s : Requests} {owner : ℕ → ReportKey} (h : Correlated s owner)
    (env : EventEnvelope) (channelId : ℤ) :
    Correlated { s with loop := s.loop.tryEnqueue env channelId } owner := by
  unfold Loop.tryEnqueue
  cases hs : s.loop.enqueue env channelId with
  | error e => exact h
  | ok loop =>
    obtain ⟨-, -, hf, -⟩ := Loop.enqueue_cases hs
    exact h.update (hf ▸ h.keyed) (h.ordered.enqueue hs) (by rw [hf]) (by rw [hf])
      fun req hr => ⟨req, hr, rfl, rfl⟩

theorem correlated_step {s : Requests} {owner : ℕ → ReportKey} (h : Correlated s owner)
    (ch : Channels) (op : RequestOp) :
    (∃ owner', Correlated (requestStep ch s op) owner') ∧
      s.loop.Extends (requestStep ch s op).loop := by
  cases op with
  | start registry channelId kind strategy =>
    refine ⟨h.start ch registry channelId kind strategy, ?_⟩
    simp only [requestStep, Requests.start]
    split
    · exact s.loop.extends_fwd _
    · exact .refl _
  | published r =>
    simp only [requestStep]
    cases hp : s.inPhase r .publishing with
    | none => exact ⟨⟨owner, h⟩, .refl _⟩
    | some req => exact ⟨⟨owner, h.setPhase (inPhase_mem hp) _⟩, .refl _⟩
  | publishFails r =>
    simp only [requestStep]
    cases hp : s.inPhase r .publishing with
    | none => exact ⟨⟨owner, h⟩, .refl _⟩
    | some req => exact ⟨⟨owner, h.setPhase (inPhase_mem hp) _⟩, .refl _⟩
  | intake env channelId =>
    refine ⟨⟨owner, h.intake env channelId⟩, ?_⟩
    simp only [requestStep, Loop.tryEnqueue]
    cases hs : s.loop.enqueue env channelId with
    | error e => exact .refl _
    | ok loop => exact Loop.extends_enqueue hs
  | callback => exact ⟨⟨owner, h.callback⟩, s.loop.extends_runCallback⟩
  | gathered r => exact ⟨⟨owner, h.finish.1⟩, h.finish.2⟩
  | expire r =>
    simp only [requestStep, Requests.expire]
    cases hp : s.inPhase r .waiting with
    | none => exact ⟨⟨owner, h⟩, .refl _⟩
    | some req => exact ⟨⟨owner, h.cancelAll (inPhase_mem hp) _⟩, s.loop.extends_fwd _⟩
  | collect r => exact ⟨⟨owner, h.finish.1⟩, h.finish.2⟩
  | cancelled r =>
    simp only [requestStep, Requests.abort]
    cases hr : s.requests[r]? with
    | none => exact ⟨⟨owner, h⟩, .refl _⟩
    | some req =>
      have hmem := List.mem_of_getElem? hr
      dsimp only
      cases req.phase with
      | publishing | expired => exact ⟨⟨owner, h.setPhase hmem _⟩, .refl _⟩
      | waiting => exact ⟨⟨owner, h.cancelAll hmem _⟩, s.loop.extends_fwd _⟩
      | finished | failed => exact ⟨⟨owner, h⟩, .refl _⟩

def requestsAfter (ch : Channels) (ops : List RequestOp) : Requests := run (requestStep ch) {} ops

theorem correlated_run {s : Requests} {owner : ℕ → ReportKey} (h : Correlated s owner)
    (ch : Channels) (ops : List RequestOp) :
    (∃ owner', Correlated (run (requestStep ch) s ops) owner') ∧
      s.loop.Extends (run (requestStep ch) s ops).loop := by
  refine run_invariant (I := fun t => (∃ owner', Correlated t owner') ∧ s.loop.Extends t.loop)
    ⟨⟨owner, h⟩, .refl _⟩ (fun t op ⟨⟨o, ht⟩, hext⟩ => ?_) ops
  obtain ⟨hc, he⟩ := correlated_step ht ch op
  exact ⟨hc, hext.trans he⟩

/-- In a run, a step ends the wait of request `r`, and the future of one of its targets
has been resolved with `env` by then. `loop` is the loop the replies are posted on. -/
structure FinalReply (ch : Channels) (ops pre : List RequestOp) (op : RequestOp) (r : ℕ)
    (req : Request) (loop : Loop) (sid : String) (env : EventEnvelope) : Prop where
  inRun : ∃ post, ops = pre ++ op :: post
  ends : (requestsAfter ch pre).waitEnds op = some (r, req, loop)
  resolved : ∃ fut, (sid, fut) ∈ req.futures ∧
    (requestsAfter ch pre).loop.fwd.futures fut = .resolved env

/-- What the final calls of `enqueue` of a request sent for one of its targets. -/
def repliesSent (s : Requests) (req : Request) (loop : Loop) (sid : String) : List Sent :=
  ((postReplies loop req.channelId (req.replies loop.fwd)).2.filter fun e => e.1 = sid).flatMap
    fun e => s.loop.sendsOf e.2

/-- The reply was sent exactly once, to the channel of the request. -/
def SentOnce (s : Requests) (req : Request) (loop : Loop) (sid : String) (env : EventEnvelope) :
    Prop :=
  ∃ ticket, repliesSent s req loop sid = [⟨ticket, env, req.channelId⟩]

variable {ch : Channels} {ops pre : List RequestOp} {op : RequestOp} {r : ℕ} {req : Request}
  {loop : Loop} {sid : String} {env : EventEnvelope}

theorem FinalReply.sentOnce_iff (h : FinalReply ch ops pre op r req loop sid env) :
    SentOnce (requestsAfter ch ops) req loop sid env ↔
      (requestsAfter ch pre).loop.fwd.listenersOf (req.topic, .str sid) = [] := by
  obtain ⟨post, rfl⟩ := h.inRun
  obtain ⟨fut, hfut, hres⟩ := h.resolved
  obtain ⟨⟨owner, hc⟩, -⟩ := correlated_run (correlated_init fun _ => ("", .none)) ch pre
  rw [← requestsAfter] at hc
  obtain ⟨hreq, hstep, hloop⟩ := waitEnds_cases h.ends ch
  obtain ⟨hk, ho, hcl, -, hfutures, -⟩ := hc.closing h.ends
  obtain ⟨htopic, hnodup, howner⟩ := hc.requests req hreq
  -- the request's own future is resolved, so it is not listed and its drop changes nothing
  have hlist : loop.fwd.listenersOf (req.topic, .str sid) =
      (requestsAfter ch pre).loop.fwd.listenersOf (req.topic, .str sid) := by
    rcases hloop with rfl | rfl
    · rfl
    · refine listenersOf_dropAll fun e he hkey hmem => ?_
      have hsid : sid = e.1 := by simpa using hkey
      obtain rfl : e = (sid, fut) := List.inj_on_of_nodup_map hnodup he hfut hsid.symm
      exact hc.keyed.unresolved _ _ hmem env hres
  have hreplies : (sid, FutureState.resolved env) ∈ req.replies loop.fwd := by
    rw [Request.replies, hfutures]
    exact List.mem_map.2 ⟨_, hfut, by rw [hres]⟩
  have hkeys : ∀ e ∈ req.replies loop.fwd, ∀ env, e.2 = .resolved env →
      reportKey env = .ok (some (req.topic, .str e.1)) := by
    intro e he env' hst
    obtain ⟨x, hx, rfl⟩ := List.mem_map.1 he
    rw [← (howner x hx).2]
    exact (hk.resolved x.2 env' hst).2
  have hnodup' : ((req.replies loop.fwd).map Prod.fst).Nodup := by
    rw [Request.replies, List.map_map]
    exact hnodup
  obtain ⟨ticket, hpost, hlt, hsends⟩ :=
    postReplies_sends ho hcl req.channelId htopic hnodup' hkeys hreplies
  have hfinal : (requestsAfter ch (pre ++ op :: post)).loop.sendsOf ticket =
      if (requestsAfter ch pre).loop.fwd.listenersOf (req.topic, .str sid) = [] then
        [⟨ticket, env, req.channelId⟩] else [] := by
    obtain ⟨⟨owner', hc'⟩, -⟩ := correlated_step hc ch op
    have hext := (correlated_run hc' ch post).2
    rw [requestsAfter, run_append, run_cons, ← requestsAfter, hext.sends, hstep, ← hlist, ← hsends]
    · rfl
    · rw [hstep]
      exact hlt
  rw [SentOnce, repliesSent, hpost]
  simp only [List.flatMap_cons, List.flatMap_nil, List.append_nil, hfinal]
  split_ifs with hl
  · simp [hl]
  · simp [hl]

/-- Every reply of a run reaches its operator exactly when nobody else is listed for
the same topic and strategy at the moment its request goes on. -/
theorem replies_sent_once_iff (ch : Channels) (ops : List RequestOp) :
    (∀ pre op r req loop sid env, FinalReply ch ops pre op r req loop sid env →
        SentOnce (requestsAfter ch ops) req loop sid env) ↔
      ∀ pre op r req loop sid env, FinalReply ch ops pre op r req loop sid env →
        (requestsAfter ch pre).loop.fwd.listenersOf (req.topic, .str sid) = [] := by
  constructor
  · intro h pre op r req loop sid env hf
    exact hf.sentOnce_iff.1 (h pre op r req loop sid env hf)
  · intro h pre op r req loop sid env hf
    exact hf.sentOnce_iff.2 (h pre op r req loop sid env hf)

/-- An operator asks for `h` from the sandbox channel; between the dispatch of the reply
and the end of the wait, another asks from the logging channel. -/
def secondOperator : List RequestOp :=
  let registry : Registry := Dict.empty.set "h" "sandbox"
  [.start registry (some 1) .positions (some "h"), .published 0, .intake positionsReport 3,
    .callback, .start registry (some 3) .positions none]

/-- The reply goes to the second operator's future instead of the sandbox channel. -/
theorem reply_is_captured :
    ¬ ∀ pre op r req loop sid env,
      FinalReply ⟨1, 2, 3⟩ (secondOperator ++ [.gathered 0]) pre op r req loop sid env →
        SentOnce (requestsAfter ⟨1, 2, 3⟩ (secondOperator ++ [.gathered 0])) req loop sid env := by
  intro h
  have hr : FinalReply ⟨1, 2, 3⟩ (secondOperator ++ [.gathered 0]) secondOperator (.gathered 0) 0
      ⟨1, "tinohelm.report.positions", [("h", 0)], .waiting⟩
      (requestsAfter ⟨1, 2, 3⟩ secondOperator).loop "h" positionsReport :=
    ⟨⟨[], rfl⟩, rfl, 0, by decide, rfl⟩
  have hlist := hr.sentOnce_iff.1 (h _ _ _ _ _ _ _ hr)
  exact absurd hlist (by decide)

end TinoHelm

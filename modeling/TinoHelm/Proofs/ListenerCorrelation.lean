import TinoHelm.Proofs.ListenerCleanup

/-! The listener table over any sequence of calls. A future is listed from its
`watch_report` until it is dropped or a report of its topic and strategy is dispatched,
and only such a report resolves it. -/

namespace TinoHelm
open Base Forwarder

/-- A call on the listener table, or on one of its futures. -/
inductive ListenerOp where
  | watch (topic strategyId : String)
  | drop (topic strategyId : String) (future : ℕ)
  | cancel (future : ℕ)
  | dispatch (env : EventEnvelope)

def listenerStep (f : Forwarder) : ListenerOp → Forwarder
  | .watch topic sid => (f.watchReport topic sid).1
  | .drop topic sid future => f.dropReportListener topic sid future
  | .cancel future => f.cancel future
  | .dispatch env => (f.dispatched env).1

def setResults (f : Forwarder) : ListenerOp → List (ℕ × EventEnvelope)
  | .dispatch env => (f.dispatched env).2.map fun fut => (fut, env)
  | _ => []

def listenersAfter (ops : List ListenerOp) : Forwarder := run listenerStep {} ops

def resultsOf (ops : List ListenerOp) : List (ℕ × EventEnvelope) :=
  trace listenerStep setResults {} ops

def ListenerOp.registration? : ListenerOp → Option (String × String)
  | .watch topic sid => some (topic, sid)
  | _ => none

/-- The topic and the strategy of every future, in the order of their creation. -/
def registrations (ops : List ListenerOp) : List (String × String) :=
  ops.filterMap ListenerOp.registration?

/-- A report of the strategy on the topic. One without a topic or an id is for nobody. -/
structure ReportOf (env : EventEnvelope) (topic sid : String) : Prop where
  isDict : env.body.isDict = true
  topic : env.topic = topic ∧ topic ≠ ""
  strategyId : env.body.get "strategy_id" = .str sid ∧ sid ≠ ""

def ListenerOp.Unlists (topic sid : String) (fut : ℕ) : ListenerOp → Prop
  | .drop t s future => t = topic ∧ s = sid ∧ future = fut
  | .dispatch env => ReportOf env topic sid
  | _ => False

/-- The calls have registered the future, and none after that has ended it. -/
def Registered (ops : List ListenerOp) (topic sid : String) (fut : ℕ) : Prop :=
  ∃ pre post, ops = pre ++ .watch topic sid :: post ∧ fut = (registrations pre).length ∧
    ∀ op ∈ post, ¬op.Unlists topic sid fut

theorem reportKey_eq_str (env : EventEnvelope) (topic sid : String) :
    reportKey env = .ok (some (topic, .str sid)) ↔ ReportOf env topic sid := by
  rw [reportKey_eq_some]
  dsimp only
  rw [Value.hash_eq_str]
  constructor
  · rintro ⟨hd, ht, hne, rfl, hs⟩
    rw [hs, Value.truthy_str, decide_eq_true_eq] at ht
    exact ⟨hd, ⟨rfl, hne⟩, hs, ht⟩
  · rintro ⟨hd, ⟨rfl, hne⟩, hs, hsne⟩
    refine ⟨hd, ?_, hne, rfl, hs⟩
    rw [hs, Value.truthy_str, decide_eq_true_eq]
    exact hsne

namespace Forwarder

variable {f : Forwarder} {owner : ℕ → ReportKey} {topic sid : String} {fut : ℕ}

def NoEmptyList (f : Forwarder) : Prop := ∀ key, f.listeners.get? key ≠ some []

theorem NoEmptyList.watch (h : f.NoEmptyList) (topic sid : String) :
    (f.watchReport topic sid).1.NoEmptyList := by
  intro key
  simp only [watchReport, Dict.get?_set]
  split_ifs
  · simp
  · exact h key

theorem NoEmptyList.drop (h : f.NoEmptyList) (topic sid : String) (future : ℕ) :
    (f.dropReportListener topic sid future).NoEmptyList := by
  intro key
  unfold dropReportListener
  dsimp only
  split_ifs with hmem hrest
  · rw [Dict.get?_erase]
    split_ifs
    · simp
    · exact h key
  · rw [Dict.get?_set]
    split_ifs
    · rw [List.isEmpty_iff] at hrest
      exact fun hnil => hrest (Option.some.inj hnil)
    · exact h key
  · exact h key

theorem NoEmptyList.cancel (h : f.NoEmptyList) (future : ℕ) : (f.cancel future).NoEmptyList := by
  unfold Forwarder.cancel
  split_ifs
  · exact h
  · exact h

theorem NoEmptyList.dispatched (h : f.NoEmptyList) (env : EventEnvelope) :
    (f.dispatched env).1.NoEmptyList := by
  intro k
  obtain ⟨key, -, hd⟩ | ⟨-, hd⟩ := f.dispatched_cases env
  · rw [hd]
    dsimp only
    rw [Dict.get?_erase]
    split_ifs
    · simp
    · exact h k
  · rw [hd]
    exact h k

theorem Distinct.dispatched (h : f.Distinct) (env : EventEnvelope) :
    (f.dispatched env).1.Distinct := by
  intro k
  by_cases hk : reportKey env = .ok (some k)
  · rw [(f.listenersOf_dispatched env k).1 hk]
    exact List.nodup_nil
  · rw [(f.listenersOf_dispatched env k).2 hk]
    exact h k

theorem resolveAll_woken_sublist (env : EventEnvelope) (futures : ℕ → FutureState) (l : List ℕ) :
    (resolveAll env futures l).2.Sublist l := by
  induction l generalizing futures with
  | nil => exact List.Sublist.refl []
  | cons fut l ih =>
    unfold resolveAll
    split_ifs
    · exact (ih _).cons_cons fut
    · exact (ih _).cons fut

theorem nodup_woken (h : f.Distinct) (env : EventEnvelope) : (f.dispatched env).2.Nodup := by
  obtain ⟨key, -, hd⟩ | ⟨-, hd⟩ := f.dispatched_cases env
  · rw [hd]
    exact (h key).sublist (resolveAll_woken_sublist env f.futures _)
  · rw [hd]
    exact List.nodup_nil

end Forwarder

section Step

variable {f : Forwarder} {owner : ℕ → ReportKey} {ops : List ListenerOp} {op : ListenerOp}
  {topic sid : String} {fut : ℕ}

theorem registrations_snoc (ops : List ListenerOp) (op : ListenerOp) :
    registrations (ops ++ [op]) = registrations ops ++ op.registration?.toList := by
  rw [registrations, List.filterMap_append, ← registrations]
  cases op <;> rfl

/-- A registration holds until a call ends it, and only `watch_report` makes a new one. -/
theorem registered_snoc :
    Registered (ops ++ [op]) topic sid fut ↔
      (Registered ops topic sid fut ∧ ¬op.Unlists topic sid fut) ∨
        op = .watch topic sid ∧ fut = (registrations ops).length := by
  constructor
  · rintro ⟨pre, post, heq, hfut, hpost⟩
    rcases List.eq_nil_or_concat post with rfl | ⟨post', last, rfl⟩
    · obtain ⟨rfl, hop⟩ := List.append_inj' heq rfl
      exact Or.inr ⟨List.singleton_inj.1 hop, hfut⟩
    · rw [List.concat_eq_append, ← List.cons_append, ← List.append_assoc] at heq
      obtain ⟨rfl, hop⟩ := List.append_inj' heq rfl
      obtain rfl := List.singleton_inj.1 hop
      exact Or.inl ⟨⟨pre, post', rfl, hfut, fun o ho => hpost o (by simp [ho])⟩,
        hpost op (by simp)⟩
  · rintro (⟨⟨pre, post, rfl, hfut, hpost⟩, hop⟩ | ⟨rfl, hfut⟩)
    · refine ⟨pre, post ++ [op], by simp, hfut, fun o ho => ?_⟩
      rcases List.mem_append.1 ho with ho | ho
      · exact hpost o ho
      · rw [List.mem_singleton.1 ho]
        exact hop
    · exact ⟨ops, [], rfl, hfut, by simp⟩

/-- A call lists the future it registers and takes off those it ends. -/
theorem mem_listenersOf_listenerStep (hd : f.Distinct) :
    fut ∈ (listenerStep f op).listenersOf (topic, .str sid) ↔
      (fut ∈ f.listenersOf (topic, .str sid) ∧ ¬op.Unlists topic sid fut) ∨
        op = .watch topic sid ∧ fut = f.created := by
  cases op with
  | watch t s =>
    simp only [listenerStep, mem_listenersOf_watchReport, ListenerOp.Unlists, not_false_eq_true,
      and_true, Prod.mk.injEq, HashKey.str.injEq, ListenerOp.watch.injEq, eq_comm]
  | drop t s future =>
    simp only [listenerStep, mem_listenersOf_drop hd, ListenerOp.Unlists, Prod.mk.injEq,
      HashKey.str.injEq, reduceCtorEq, false_and, or_false, and_assoc, eq_comm]
  | cancel future =>
    simp [listenerStep, ListenerOp.Unlists]
  | dispatch env =>
    have hl := f.listenersOf_dispatched env (topic, .str sid)
    rw [reportKey_eq_str, Ne, reportKey_eq_str] at hl
    by_cases hr : ReportOf env topic sid
    · simp [listenerStep, ListenerOp.Unlists, hr, hl.1 hr]
    · simp [listenerStep, ListenerOp.Unlists, hr, hl.2 hr]

theorem resolved_listenerStep (env : EventEnvelope) :
    (listenerStep f op).futures fut = .resolved env ↔
      f.futures fut = .resolved env ∨ (fut, env) ∈ setResults f op := by
  cases op with
  | watch t s => simp [listenerStep, setResults]
  | drop t s future => simp [listenerStep, setResults]
  | cancel future =>
    simp only [listenerStep, setResults, futures_cancel, List.not_mem_nil, or_false]
    split_ifs with hc
    · refine ⟨nofun, fun h => ?_⟩
      rw [h, FutureState.isPending_resolved] at hc
      exact absurd hc.2 Bool.false_ne_true
    · rfl
  | dispatch env' =>
    simp only [listenerStep, setResults, futures_dispatched, List.mem_map, Prod.mk.injEq]
    split_ifs with hw
    · have hp := ((f.mem_woken env' fut).1 hw).2
      have hnot : f.futures fut ≠ .resolved env := fun h => by
        rw [h, FutureState.isPending_resolved] at hp
        exact Bool.false_ne_true hp
      simp [hw, hnot]
    · simp [hw]

theorem pending_of_setResults {env : EventEnvelope} (h : (fut, env) ∈ setResults f op) :
    (f.futures fut).isPending := by
  cases op with
  | dispatch env' =>
    obtain ⟨future, hw, heq⟩ := List.mem_map.1 h
    rw [← (Prod.mk.inj heq).1]
    exact ((f.mem_woken env' future).1 hw).2
  | watch | drop | cancel => simp [setResults] at h

theorem nodup_setResults (hd : f.Distinct) : ((setResults f op).map Prod.fst).Nodup := by
  cases op with
  | dispatch env =>
    rw [setResults, List.map_map]
    simpa [Function.comp_def] using nodup_woken hd env
  | watch | drop | cancel => exact List.nodup_nil

theorem distinct_listenerStep (h : f.Distinct) (hk : f.Keyed owner) :
    (listenerStep f op).Distinct := by
  cases op with
  | watch topic sid => exact h.watch hk topic sid
  | drop topic sid future => exact h.drop topic sid future
  | cancel future => exact fun key => (listenersOf_cancel f future key).symm ▸ h key
  | dispatch env => exact h.dispatched env

theorem noEmptyList_listenerStep (h : f.NoEmptyList) : (listenerStep f op).NoEmptyList := by
  cases op with
  | watch topic sid => exact h.watch topic sid
  | drop topic sid future => exact h.drop topic sid future
  | cancel future => exact h.cancel future
  | dispatch env => exact h.dispatched env

/-- The key a future has been registered under. -/
def keyOf (ops : List ListenerOp) (fut : ℕ) : ReportKey :=
  (((registrations ops)[fut]?).map fun r => (r.1, HashKey.str r.2)).getD ("", .none)

theorem keyOf_watch (ops : List ListenerOp) (topic sid : String) :
    keyOf (ops ++ [.watch topic sid]) =
      Function.update (keyOf ops) (registrations ops).length (topic, .str sid) := by
  funext fut
  have hr : registrations (ops ++ [.watch topic sid]) = registrations ops ++ [(topic, sid)] :=
    registrations_snoc ops _
  rw [keyOf, hr]
  rcases Nat.lt_trichotomy fut (registrations ops).length with h | rfl | h
  · rw [List.getElem?_append_left h, Function.update_of_ne (Nat.ne_of_lt h), keyOf]
  · simp
  · rw [Function.update_of_ne (Nat.ne_of_gt h), keyOf, List.getElem?_eq_none h.le,
      List.getElem?_eq_none (by simpa using Nat.succ_le_of_lt h)]

theorem registrations_keep (h : op.registration? = none) :
    registrations (ops ++ [op]) = registrations ops := by
  rw [registrations_snoc, h, Option.toList_none, List.append_nil]

theorem keyOf_keep (h : op.registration? = none) : keyOf (ops ++ [op]) = keyOf ops := by
  funext fut
  rw [keyOf, registrations_keep h, keyOf]

theorem keyed_listenerStep (op : ListenerOp) (h : f.Keyed (keyOf ops))
    (hc : f.created = (registrations ops).length) :
    (listenerStep f op).Keyed (keyOf (ops ++ [op])) ∧
      (listenerStep f op).created = (registrations (ops ++ [op])).length := by
  cases op with
  | watch topic sid =>
    rw [keyOf_watch, registrations_snoc, ← hc]
    exact ⟨h.watch topic sid, by simp [listenerStep, watchReport, ListenerOp.registration?, hc]⟩
  | drop topic sid future =>
    rw [keyOf_keep rfl, registrations_keep rfl, ← hc]
    exact ⟨h.drop topic sid future, created_dropReportListener f topic sid future⟩
  | cancel future =>
    rw [keyOf_keep rfl, registrations_keep rfl, ← hc]
    exact ⟨h.cancel future, created_cancel f future⟩
  | dispatch env =>
    rw [keyOf_keep rfl, registrations_keep rfl, ← hc]
    exact ⟨h.dispatched env, created_dispatched f env⟩

/-- What the forwarder is like after the calls, and what they have put out. -/
structure Accounted (f : Forwarder) (ops : List ListenerOp) : Prop where
  keyed : f.Keyed (keyOf ops)
  created : f.created = (registrations ops).length
  distinct : f.Distinct
  noEmptyList : f.NoEmptyList
  listed : ∀ topic sid fut,
    fut ∈ f.listenersOf (topic, .str sid) ↔ Registered ops topic sid fut
  resolved : ∀ fut env, f.futures fut = .resolved env ↔ (fut, env) ∈ resultsOf ops
  once : ((resultsOf ops).map Prod.fst).Nodup

theorem accounted_init : Accounted {} [] where
  keyed := keyed_init
  created := rfl
  distinct := distinct_init
  noEmptyList := fun key => by simp
  listed := fun topic sid fut => by simp [listenersOf, Registered]
  resolved := fun fut env => by simp [resultsOf, trace]
  once := List.nodup_nil

theorem Accounted.step (h : Accounted (listenersAfter ops) ops) :
    Accounted (listenerStep (listenersAfter ops) op) (ops ++ [op]) := by
  have hres : resultsOf (ops ++ [op]) = resultsOf ops ++ setResults (listenersAfter ops) op :=
    trace_snoc listenerStep setResults {} ops op
  obtain ⟨hkeyed, hcreated⟩ := keyed_listenerStep op h.keyed h.created
  refine ⟨hkeyed, hcreated, distinct_listenerStep h.distinct h.keyed,
    noEmptyList_listenerStep h.noEmptyList, fun topic sid fut => ?_, fun fut env => ?_, ?_⟩
  · rw [mem_listenersOf_listenerStep h.distinct, registered_snoc, h.listed, h.created]
  · rw [resolved_listenerStep, h.resolved, hres, List.mem_append]
  · rw [hres, List.map_append]
    refine h.once.append (nodup_setResults h.distinct) fun fut hold hnew => ?_
    obtain ⟨⟨_, env⟩, he, rfl⟩ := List.mem_map.1 hold
    obtain ⟨⟨_, env'⟩, he', heq⟩ := List.mem_map.1 hnew
    -- a future that already has a result is not pending
    have hp := pending_of_setResults he'
    dsimp only at heq
    rw [heq, (h.resolved _ env).2 he, FutureState.isPending_resolved] at hp
    exact Bool.false_ne_true hp

theorem accounted_after (ops : List ListenerOp) : Accounted (listenersAfter ops) ops :=
  run_history (I := fun ops f => Accounted f ops) accounted_init (fun _ _ h => h.step) ops

end Step

/-- A future gets at most one result, and that is a report of the topic and the strategy
it was registered for. -/
structure OneMatchingResult (ops : List ListenerOp) : Prop where
  once : ((resultsOf ops).map Prod.fst).Nodup
  matching : ∀ fut env, (fut, env) ∈ resultsOf ops →
    ∃ topic sid, (registrations ops)[fut]? = some (topic, sid) ∧ ReportOf env topic sid
  held : ∀ fut env, (listenersAfter ops).futures fut = .resolved env ↔ (fut, env) ∈ resultsOf ops

/-- The table lists the registered futures, each once, and no other key has a list. -/
structure ListsRegistered (f : Forwarder) (ops : List ListenerOp) : Prop where
  listed : ∀ topic sid fut,
    fut ∈ f.listenersOf (topic, .str sid) ↔ Registered ops topic sid fut
  distinct : ∀ key, (f.listenersOf key).Nodup
  nonempty : ∀ key, f.listeners.get? key ≠ some []
  keys : ∀ key ∈ f.listeners.keys, ∃ topic sid, key = (topic, HashKey.str sid)

/-- A dispatch resolves what waits for the report and is registered for it, and leaves
every other registration as it is. -/
structure DispatchesTo (ops : List ListenerOp) (env : EventEnvelope) : Prop where
  resolves : ∀ topic sid fut, Registered ops topic sid fut → ReportOf env topic sid →
    (((listenersAfter ops).futures fut).isPending →
      (listenersAfter (ops ++ [.dispatch env])).futures fut = .resolved env) ∧
      ¬Registered (ops ++ [.dispatch env]) topic sid fut
  leaves : ∀ topic sid fut, Registered ops topic sid fut → ¬ReportOf env topic sid →
    (listenersAfter (ops ++ [.dispatch env])).futures fut = (listenersAfter ops).futures fut ∧
      Registered (ops ++ [.dispatch env]) topic sid fut

/-- A drop takes its future off the list of its key, and does nothing else. -/
structure DropsOnly (f : Forwarder) (topic sid : String) (future : ℕ) : Prop where
  own : (f.dropReportListener topic sid future).listenersOf (topic, .str sid) =
    (f.listenersOf (topic, .str sid)).filter (· ≠ future)
  others : ∀ key ≠ (topic, .str sid),
    (f.dropReportListener topic sid future).listenersOf key = f.listenersOf key
  futures : (f.dropReportListener topic sid future).futures = f.futures

section Run

variable {ops : List ListenerOp} {topic sid : String} {fut : ℕ}

theorem keyOf_of_lt (h : fut < (registrations ops).length) :
    ∃ topic sid, (registrations ops)[fut]? = some (topic, sid) ∧
      keyOf ops fut = (topic, .str sid) := by
  refine ⟨_, _, List.getElem?_eq_getElem h, ?_⟩
  rw [keyOf, List.getElem?_eq_getElem h]
  rfl

theorem oneMatchingResult (ops : List ListenerOp) : OneMatchingResult ops := by
  have hf := accounted_after ops
  refine ⟨hf.once, fun fut env he => ?_, hf.resolved⟩
  obtain ⟨hlt, hkey⟩ := hf.keyed.resolved fut env ((hf.resolved fut env).2 he)
  rw [hf.created] at hlt
  obtain ⟨topic, sid, hreg, hk⟩ := keyOf_of_lt hlt
  rw [hk, reportKey_eq_str] at hkey
  exact ⟨topic, sid, hreg, hkey⟩

theorem listsRegistered (ops : List ListenerOp) : ListsRegistered (listenersAfter ops) ops := by
  have hf := accounted_after ops
  refine ⟨hf.listed, hf.distinct, hf.noEmptyList, fun key hkey => ?_⟩
  obtain ⟨l, hl⟩ := Option.isSome_iff_exists.1 ((Dict.get?_isSome_iff _ _).2 hkey)
  cases l with
  | nil => exact absurd hl (hf.noEmptyList key)
  | cons fut l =>
    -- a listed future tells which key its list has
    have hmem : fut ∈ (listenersAfter ops).listenersOf key := by simp [listenersOf, hl]
    obtain ⟨ho, hlt⟩ := hf.keyed.listed key fut hmem
    rw [hf.created] at hlt
    obtain ⟨topic, sid, -, hk⟩ := keyOf_of_lt hlt
    exact ⟨topic, sid, ho.symm.trans hk⟩

theorem listenersAfter_snoc (ops : List ListenerOp) (op : ListenerOp) :
    listenersAfter (ops ++ [op]) = listenerStep (listenersAfter ops) op :=
  run_snoc listenerStep {} ops op

theorem dispatchesTo (ops : List ListenerOp) (env : EventEnvelope) : DispatchesTo ops env := by
  have hf := accounted_after ops
  constructor
  · intro topic sid fut hreg hrep
    refine ⟨fun hpend => ?_, fun hafter => ?_⟩
    · have hw : fut ∈ ((listenersAfter ops).dispatched env).2 := by
        rw [mem_woken]
        exact ⟨⟨_, (reportKey_eq_str env topic sid).2 hrep, (hf.listed topic sid fut).2 hreg⟩, hpend⟩
      rw [listenersAfter_snoc, listenerStep, futures_dispatched, if_pos hw]
    · rcases registered_snoc.1 hafter with ⟨-, hno⟩ | ⟨hop, -⟩
      · exact hno hrep
      · cases hop
  · intro topic sid fut hreg hrep
    constructor
    · have hw : fut ∉ ((listenersAfter ops).dispatched env).2 :=
        hf.keyed.not_woken (fun hkey => hrep ((reportKey_eq_str env topic sid).1 hkey))
          ((hf.listed topic sid fut).2 hreg)
      rw [listenersAfter_snoc, listenerStep, futures_dispatched, if_neg hw]
    · exact registered_snoc.2 (Or.inl ⟨hreg, hrep⟩)

theorem dropsOnly (ops : List ListenerOp) (topic sid : String) (future : ℕ) :
    DropsOnly (listenersAfter ops) topic sid future := by
  refine ⟨?_, fun key hne => ?_, futures_dropReportListener _ topic sid future⟩
  · rw [listenersOf_dropReportListener, if_pos rfl,
      ((accounted_after ops).distinct _).erase_eq_filter]
    exact List.filter_congr fun fut _ => by rw [Bool.eq_iff_iff]; simp
  · rw [listenersOf_dropReportListener, if_neg hne]

/-- The listeners of reports, after any sequence of calls. -/
theorem listener_correlation (ops : List ListenerOp) :
    OneMatchingResult ops ∧ ListsRegistered (listenersAfter ops) ops ∧
      (∀ env, DispatchesTo ops env) ∧
      ∀ topic sid future, DropsOnly (listenersAfter ops) topic sid future :=
  ⟨oneMatchingResult ops, listsRegistered ops, dispatchesTo ops, dropsOnly ops⟩

end Run

namespace Loop

/-- The calls a step of the loop comes down to. -/
def listenerCalls (s : Loop) : ForwarderOp → List ListenerOp
  | .watch topic sid => [.watch topic sid]
  | .enqueue _ _ => []
  | .callback => (s.callbacks.jobs.head?.map fun job => ListenerOp.dispatch job.2).toList
  | .cancel future => [.cancel future]
  | .drop topic sid future => [.drop topic sid future]

theorem forwarderStep_listenerCalls (s : Loop) (op : ForwarderOp) :
    (forwarderStep s op).fwd = run listenerStep s.fwd (s.listenerCalls op) ∧
      (forwarderStep s op).wakes.map Wake.future =
        s.wakes.map Wake.future ++
          (trace listenerStep setResults s.fwd (s.listenerCalls op)).map Prod.fst := by
  cases op with
  | watch | cancel | drop => simp [forwarderStep, listenerCalls, listenerStep, trace, setResults]
  | enqueue env channelId =>
    have hw : (s.tryEnqueue env channelId).wakes = s.wakes := by
      unfold tryEnqueue enqueue
      cases s.fwd.enqueue env <;> rfl
    simp [forwarderStep, listenerCalls, trace, hw]
  | callback =>
    cases hj : s.callbacks.jobs.head? with
    | none => simp [forwarderStep, listenerCalls, runCallback_idle hj, hj, trace]
    | some job =>
      simp [forwarderStep, listenerCalls, hj, listenerStep, trace, setResults, runCallback_job hj,
        Function.comp_def]

/-- The forwarder on its loop is one sequence of such calls. -/
theorem loopAfter_listenersAfter (ops : List ForwarderOp) :
    (loopAfter ops).fwd = listenersAfter (trace forwarderStep listenerCalls {} ops) ∧
      (loopAfter ops).wakes.map Wake.future =
        (resultsOf (trace forwarderStep listenerCalls {} ops)).map Prod.fst := by
  induction ops using List.reverseRecOn with
  | nil => exact ⟨rfl, rfl⟩
  | append_singleton ops op ih =>
    obtain ⟨hf, hw⟩ := forwarderStep_listenerCalls (loopAfter ops) op
    rw [loopAfter, run_snoc, ← loopAfter, trace_snoc, listenersAfter, run_append, ← listenersAfter,
      resultsOf, trace_append, ← resultsOf, ← listenersAfter, ← loopAfter, List.map_append, ← ih.1,
      ← ih.2]
    exact ⟨hf, hw⟩

end Loop

end TinoHelm

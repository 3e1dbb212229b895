import TinoHelm.Base.Fifo
import TinoHelm.Spec.Intake

/-! `DiscordForwarder` of `notifier/runner.py`: the table of pending report
futures, and the event loop around it. `enqueue` decides on the table at once and
only schedules; `_dispatch_report_listeners` empties the table when its callback
runs. A scheduled `_send` is recorded as sent. -/

namespace TinoHelm
open Base

def onDemandReportTopics : List String :=
  ["tinohelm.report.positions", "tinohelm.report.fills", "tinohelm.report.orders"]

inductive FutureState where
  | pending
  | cancelled
  | resolved (env : EventEnvelope)

namespace FutureState

def isPending : FutureState → Bool
  | pending => true
  | _ => false

@[simp] theorem isPending_resolved (env : EventEnvelope) : (resolved env).isPending = false := rfl

end FutureState

abbrev ReportKey := String × HashKey

/-- Futures are numbered in the order of their creation. -/
structure Forwarder where
  closed : Bool := false
  listeners : Dict ReportKey (List ℕ) := .empty
  futures : ℕ → FutureState := fun _ => .pending
  created : ℕ := 0

/-- What `enqueue` leaves to the loop: the deferred dispatch, the `_send`. -/
structure Scheduled where
  dispatch : Bool
  send : Bool
deriving DecidableEq

namespace Forwarder

def listenersOf (f : Forwarder) (key : ReportKey) : List ℕ := (f.listeners.get? key).getD []

def watchReport (f : Forwarder) (topic strategyId : String) : Forwarder × ℕ :=
  let key := (topic, HashKey.str strategyId)
  ({ f with
      listeners := f.listeners.set key (f.listenersOf key ++ [f.created])
      created := f.created + 1 }, f.created)

def dropReportListener (f : Forwarder) (topic strategyId : String) (future : ℕ) : Forwarder :=
  let key := (topic, HashKey.str strategyId)
  let listeners := f.listenersOf key
  if future ∈ listeners then
    let rest := listeners.erase future
    if rest.isEmpty then { f with listeners := f.listeners.erase key }
    else { f with listeners := f.listeners.set key rest }
  else f

/-- `future.cancel()`: a done future stays as it is. -/
def cancel (f : Forwarder) (future : ℕ) : Forwarder :=
  if (f.futures future).isPending then
    { f with futures := Function.update f.futures future .cancelled }
  else f

/-- `if not fut.done(): fut.set_result(env)` for each future, and those it woke. -/
def resolveAll (env : EventEnvelope) :
    (ℕ → FutureState) → List ℕ → (ℕ → FutureState) × List ℕ
  | futures, [] => (futures, [])
  | futures, fut :: rest =>
    if (futures fut).isPending then
      let (futures, woken) := resolveAll env (Function.update futures fut (.resolved env)) rest
      (futures, fut :: woken)
    else resolveAll env futures rest

/-- The key an envelope is dispatched to, if it is dispatched at all. -/
def reportKey (env : EventEnvelope) : Except PyError (Option ReportKey) :=
  let sid := env.body.get "strategy_id"
  if env.body.isDict && sid.truthy && env.topic ≠ "" then
    sid.hash.map fun k => some (env.topic, k)
  else .ok none

def dispatchReportListeners (f : Forwarder) (env : EventEnvelope) :
    Except PyError (Forwarder × List ℕ) :=
  (reportKey env).map fun
    | none => (f, [])
    | some key =>
      let (futures, woken) := resolveAll env f.futures (f.listenersOf key)
      ({ f with listeners := f.listeners.erase key, futures }, woken)

/-- `_dispatch_report_listeners`: what raises in it comes before any change. -/
def dispatched (f : Forwarder) (env : EventEnvelope) : Forwarder × List ℕ :=
  match f.dispatchReportListeners env with
  | .ok r => r
  | .error _ => (f, [])

/-- The decision of `enqueue`, from the listener table as it is now. -/
def enqueue (f : Forwarder) (env : EventEnvelope) : Except PyError Scheduled :=
  if f.closed then .ok ⟨false, false⟩
  else if onDemandReportTopics.contains env.topic then
    let sid := env.body.get "strategy_id"
    let onDemand : Except PyError Bool :=
      if sid.truthy then sid.hash.map fun k => !(f.listenersOf (env.topic, k)).isEmpty
      else .ok false
    onDemand.map fun onDemand => ⟨true, !onDemand⟩
  else .ok ⟨false, true⟩

/-- The pending futures under a key: those a dispatch resolves. -/
def waiting (f : Forwarder) (key : ReportKey) : List ℕ :=
  (f.listenersOf key).filter fun fut => (f.futures fut).isPending

theorem listenersOf_watchReport (f : Forwarder) (topic sid : String) (key : ReportKey) :
    (f.watchReport topic sid).1.listenersOf key =
      if key = (topic, .str sid) then f.listenersOf key ++ [f.created] else f.listenersOf key := by
  simp only [watchReport, listenersOf, Dict.get?_set]
  by_cases h : key = (topic, HashKey.str sid) <;> simp [h]

theorem listenersOf_dropReportListener (f : Forwarder) (topic sid : String) (future : ℕ)
    (key : ReportKey) :
    (f.dropReportListener topic sid future).listenersOf key =
      if key = (topic, .str sid) then (f.listenersOf key).erase future
      else f.listenersOf key := by
  unfold dropReportListener
  dsimp only
  split_ifs with hmem hrest hk hk hk
  · subst hk
    rw [List.isEmpty_iff] at hrest
    rw [hrest, listenersOf, Dict.get?_erase_self, Option.getD_none]
  · simp [listenersOf, Dict.get?_erase, hk]
  · simp [listenersOf, hk]
  · simp [listenersOf, Dict.get?_set, hk]
  · rw [hk, List.erase_of_not_mem hmem]
  · rfl

@[simp] theorem futures_watchReport (f : Forwarder) (topic sid : String) :
    (f.watchReport topic sid).1.futures = f.futures := rfl

@[simp] theorem futures_dropReportListener (f : Forwarder) (topic sid : String) (future : ℕ) :
    (f.dropReportListener topic sid future).futures = f.futures := by
  unfold dropReportListener
  dsimp only
  split_ifs <;> rfl

@[simp] theorem listenersOf_cancel (f : Forwarder) (future : ℕ) (key : ReportKey) :
    (f.cancel future).listenersOf key = f.listenersOf key := by
  unfold cancel
  split_ifs <;> rfl

theorem closed_cancel (f : Forwarder) (future : ℕ) : (f.cancel future).closed = f.closed := by
  unfold cancel
  split_ifs <;> rfl

theorem closed_dropReportListener (f : Forwarder) (topic sid : String) (future : ℕ) :
    (f.dropReportListener topic sid future).closed = f.closed := by
  unfold dropReportListener
  dsimp only
  split_ifs <;> rfl

theorem futures_cancel (f : Forwarder) (future fut : ℕ) :
    (f.cancel future).futures fut =
      if fut = future ∧ (f.futures fut).isPending then .cancelled else f.futures fut := by
  unfold cancel
  by_cases hp : (f.futures future).isPending = true
  · rw [if_pos hp]
    by_cases hf : fut = future
    · subst hf
      simp [hp]
    · simp [hf]
  · rw [if_neg hp]
    by_cases hf : fut = future
    · subst hf
      simp [hp]
    · simp [hf]

/-- A dispatch resolves the listed futures that are pending, each of them once. -/
theorem resolveAll_futures (env : EventEnvelope) (futures : ℕ → FutureState) (l : List ℕ)
    (fut : ℕ) :
    (resolveAll env futures l).1 fut =
      if fut ∈ l ∧ (futures fut).isPending then .resolved env else futures fut := by
  induction l generalizing futures with
  | nil => simp [resolveAll]
  | cons a l ih =>
    unfold resolveAll
    by_cases hp : (futures a).isPending = true
    · rw [if_pos hp]
      dsimp only
      rw [ih]
      by_cases ha : fut = a
      · subst ha
        simp [hp]
      · simp [ha]
    · rw [if_neg hp, ih]
      by_cases ha : fut = a
      · subst ha
        simp [hp]
      · simp [ha]

theorem mem_resolveAll_woken (env : EventEnvelope) (futures : ℕ → FutureState) (l : List ℕ)
    (fut : ℕ) : fut ∈ (resolveAll env futures l).2 ↔ fut ∈ l ∧ (futures fut).isPending := by
  induction l generalizing futures with
  | nil => simp [resolveAll]
  | cons a l ih =>
    unfold resolveAll
    by_cases hp : (futures a).isPending = true
    · rw [if_pos hp]
      dsimp only
      rw [List.mem_cons, ih, List.mem_cons]
      by_cases ha : fut = a
      · subst ha
        simp [hp]
      · simp [ha]
    · rw [if_neg hp, ih, List.mem_cons]
      by_cases ha : fut = a
      · subst ha
        simp [hp]
      · simp [ha]

theorem reportKey_eq_some {env : EventEnvelope} {key : ReportKey} :
    reportKey env = .ok (some key) ↔
      env.body.isDict = true ∧ (env.body.get "strategy_id").truthy = true ∧ env.topic ≠ "" ∧
        key.1 = env.topic ∧ (env.body.get "strategy_id").hash = .ok key.2 := by
  unfold reportKey
  dsimp only
  constructor
  · intro h
    split_ifs at h with hc
    · obtain ⟨k, hk, hkey⟩ := map_eq_ok.1 h
      obtain rfl := Option.some.inj hkey
      simp only [Bool.and_eq_true, decide_eq_true_eq] at hc
      exact ⟨hc.1.1, hc.1.2, hc.2, rfl, hk⟩
    · cases h
  · rintro ⟨hd, ht, hne, htopic, hk⟩
    rw [if_pos (by simp [hd, ht, hne]), hk, ← htopic]
    rfl

theorem reportKey_topic {env : EventEnvelope} {key : ReportKey}
    (h : reportKey env = .ok (some key)) : key.1 = env.topic :=
  (reportKey_eq_some.1 h).2.2.2.1

/-- A dispatch has a key, and takes its list, or it does nothing. -/
theorem dispatched_cases (f : Forwarder) (env : EventEnvelope) :
    (∃ key, reportKey env = .ok (some key) ∧
      f.dispatched env = ({ f with
        listeners := f.listeners.erase key
        futures := (resolveAll env f.futures (f.listenersOf key)).1 },
        (resolveAll env f.futures (f.listenersOf key)).2)) ∨
      (∀ key, reportKey env ≠ .ok (some key)) ∧ f.dispatched env = (f, []) := by
  unfold dispatched dispatchReportListeners
  cases reportKey env with
  | error e => exact Or.inr ⟨nofun, rfl⟩
  | ok key =>
    cases key with
    | none => exact Or.inr ⟨nofun, rfl⟩
    | some key => exact Or.inl ⟨key, rfl, rfl⟩

theorem closed_dispatched (f : Forwarder) (env : EventEnvelope) :
    (f.dispatched env).1.closed = f.closed := by
  obtain ⟨key, -, hd⟩ | ⟨-, hd⟩ := f.dispatched_cases env
  · rw [hd]
  · rw [hd]

theorem created_dispatched (f : Forwarder) (env : EventEnvelope) :
    (f.dispatched env).1.created = f.created := by
  obtain ⟨key, -, hd⟩ | ⟨-, hd⟩ := f.dispatched_cases env
  · rw [hd]
  · rw [hd]

theorem listenersOf_dispatched (f : Forwarder) (env : EventEnvelope) (k : ReportKey) :
    (reportKey env = .ok (some k) → (f.dispatched env).1.listenersOf k = []) ∧
      (reportKey env ≠ .ok (some k) → (f.dispatched env).1.listenersOf k = f.listenersOf k) := by
  obtain ⟨key, hk, hd⟩ | ⟨hk, hd⟩ := f.dispatched_cases env
  · rw [hd]
    simp only [listenersOf, Dict.get?_erase, hk, Except.ok.injEq, Option.some.injEq]
    constructor
    · rintro rfl
      rw [if_pos rfl, Option.getD_none]
    · intro hne
      rw [if_neg fun he => hne (by rw [he])]
  · rw [hd]
    exact ⟨fun h => absurd h (hk k), fun _ => rfl⟩

/-- A dispatch wakes the pending futures of its key. -/
theorem mem_woken (f : Forwarder) (env : EventEnvelope) (fut : ℕ) :
    fut ∈ (f.dispatched env).2 ↔
      (∃ key, reportKey env = .ok (some key) ∧ fut ∈ f.listenersOf key) ∧
        (f.futures fut).isPending := by
  obtain ⟨key, hk, hd⟩ | ⟨hk, hd⟩ := f.dispatched_cases env
  · simp [hd, mem_resolveAll_woken, hk]
  · simp [hd, hk]

theorem futures_dispatched (f : Forwarder) (env : EventEnvelope) (fut : ℕ) :
    (f.dispatched env).1.futures fut =
      if fut ∈ (f.dispatched env).2 then .resolved env else f.futures fut := by
  obtain ⟨key, -, hd⟩ | ⟨-, hd⟩ := f.dispatched_cases env
  · rw [hd]
    simp only [resolveAll_futures, mem_resolveAll_woken]
  · rw [hd, if_neg List.not_mem_nil]

theorem woken_eq_nil_iff {f : Forwarder} {env : EventEnvelope} {key : ReportKey}
    (h : reportKey env = .ok (some key)) : (f.dispatched env).2 = [] ↔ f.waiting key = [] := by
  simp only [List.eq_nil_iff_forall_not_mem, mem_woken, h, waiting, List.mem_filter,
    Except.ok.injEq, Option.some.injEq, exists_eq_left']

/-- With a key and an open loop, `enqueue` sends exactly when nobody is listed. -/
theorem enqueue_key {f : Forwarder} {env : EventEnvelope} {key : ReportKey}
    (ht : env.topic ∈ onDemandReportTopics) (h : reportKey env = .ok (some key))
    (ho : f.closed = false) : f.enqueue env = .ok ⟨true, (f.listenersOf key).isEmpty⟩ := by
  obtain ⟨-, htruthy, -, htopic, hk⟩ := reportKey_eq_some.1 h
  rw [← htopic] at ht
  simp [enqueue, ho, ht, htruthy, hk, Except.map, ← htopic]

end Forwarder

structure Sent where
  ticket : ℕ
  env : EventEnvelope
  channelId : ℤ

structure Wake where
  ticket : ℕ
  future : ℕ
deriving DecidableEq

/-- The forwarder on its loop. Calls of `enqueue` are numbered, and so are the
deferred `_dispatch_report_listeners(env)`; `sends` and `wakes` log what became of
them. -/
structure Loop where
  fwd : Forwarder := {}
  callbacks : Fifo EventEnvelope := .empty
  sends : List Sent := []
  wakes : List Wake := []

namespace Loop

def ticket (s : Loop) : ℕ := s.callbacks.next

def enqueue (s : Loop) (env : EventEnvelope) (channelId : ℤ) : Except PyError Loop :=
  (s.fwd.enqueue env).map fun todo =>
    { s with
      callbacks := if todo.dispatch then s.callbacks.push env else s.callbacks.skip
      sends := if todo.send then s.sends ++ [⟨s.ticket, env, channelId⟩] else s.sends }

/-- `enqueue` as its callers see it: an exception leaves the loop as it was. -/
def tryEnqueue (s : Loop) (env : EventEnvelope) (channelId : ℤ) : Loop :=
  match s.enqueue env channelId with
  | .ok s => s
  | .error _ => s

/-- The loop runs the oldest callback; what it raises is logged and dropped. -/
def runCallback (s : Loop) : Loop :=
  match s.callbacks.jobs.head? with
  | none => s
  | some (ticket, env) =>
    match s.fwd.dispatchReportListeners env with
    | .error _ => { s with callbacks := s.callbacks.tail }
    | .ok (fwd, woken) =>
      { s with
        fwd
        callbacks := s.callbacks.tail
        wakes := s.wakes ++ woken.map fun future => ⟨ticket, future⟩ }

@[simp] theorem fwd_tryEnqueue (s : Loop) (env : EventEnvelope) (channelId : ℤ) :
    (s.tryEnqueue env channelId).fwd = s.fwd := by
  unfold tryEnqueue enqueue
  cases s.fwd.enqueue env <;> rfl

theorem runCallback_idle {s : Loop} (h : s.callbacks.jobs.head? = none) : s.runCallback = s := by
  rw [runCallback, h]

theorem runCallback_job {s : Loop} {job : ℕ × EventEnvelope}
    (h : s.callbacks.jobs.head? = some job) :
    s.runCallback = { s with
      fwd := (s.fwd.dispatched job.2).1
      callbacks := s.callbacks.tail
      wakes := s.wakes ++ (s.fwd.dispatched job.2).2.map fun future => ⟨job.1, future⟩ } := by
  rw [runCallback, h, Forwarder.dispatched]
  dsimp only
  cases s.fwd.dispatchReportListeners job.2 with
  | error e => simp
  | ok r => rfl

theorem sends_runCallback (s : Loop) : s.runCallback.sends = s.sends := by
  cases h : s.callbacks.jobs.head? with
  | none => rw [runCallback_idle h]
  | some job => rw [runCallback_job h]

end Loop

inductive ForwarderOp where
  | watch (topic strategyId : String)
  | enqueue (env : EventEnvelope) (channelId : ℤ)
  | callback
  | cancel (future : ℕ)
  | drop (topic strategyId : String) (future : ℕ)

def forwarderStep (s : Loop) : ForwarderOp → Loop
  | .watch topic sid => { s with fwd := (s.fwd.watchReport topic sid).1 }
  | .enqueue env channelId => s.tryEnqueue env channelId
  | .callback => s.runCallback
  | .cancel future => { s with fwd := s.fwd.cancel future }
  | .drop topic sid future => { s with fwd := s.fwd.dropReportListener topic sid future }

end TinoHelm

import TinoHelm.Proofs.ReportReplies
import TinoHelm.Spec.Reporting

/-! A report that reaches the forwarder under its own topic resolves the futures waiting
for it. The in-process handler only knows its pattern, under which nobody waits. -/

namespace TinoHelm
open Base

inductive IntakePath where
  | stream
  | handler
deriving DecidableEq

/-- A message on the two paths. The handler is the one subscribed for `tinohelm.*`. -/
def IntakePath.deliver (path : IntakePath) (dec : Decoders) (topic : String) (payload : Raw)
    (tracker : Option OrderProgressTracker) (registry : Registry) (ch : Channels) : Intake :=
  match path with
  | stream => forwardStreamEntry dec ⟨some topic.toByteArray, payload⟩ tracker registry ch
  | handler => makeHandler dec "tinohelm.*" payload tracker registry ch

def IntakePath.label (path : IntakePath) (topic : String) : String :=
  match path with
  | stream => topic
  | handler => "tinohelm.*"

/-- The callbacks that are queued now have run. -/
def Loop.drain (s : Loop) : Loop := Loop.runCallback^[s.callbacks.jobs.length] s

/-- The envelope handed to `enqueue` resolves every future that waits under `key`, by its
own dispatch, and is sent to no channel. -/
def Correlates (s : Loop) (i : Intake) (key : ReportKey) : Prop :=
  ∃ env channelId s', i.result = .ok (some (env, channelId)) ∧
    s.enqueue env channelId = .ok s' ∧ s'.drain.sends = s.sends ∧
    ∀ fut ∈ s.fwd.waiting key, s'.drain.fwd.futures fut = .resolved env ∧
      ⟨s.ticket, fut⟩ ∈ s'.drain.wakes

/-! Gates let a report through, and the tracker ignores it. -/

theorem ReportBody.feed {sid : String} {body : Value} (h : ReportBody sid body)
    (tracker : Option OrderProgressTracker) : feed tracker body = (tracker, none) := by
  cases tracker with
  | none => rfl
  | some t =>
    have hk : OrderProgressTracker.orderKey body = .ok none := by
      simp [OrderProgressTracker.orderKey, h.noOrder, Value.truthy]
    simp [TinoHelm.feed, OrderProgressTracker.observe, hk]

theorem ReportBody.componentStatePasses {sid : String} {body : Value} (h : ReportBody sid body) :
    componentStatePasses body = true := by
  simp [TinoHelm.componentStatePasses, h.noType, Value.isStr]

theorem ReportBody.typeNotIn {sid : String} {body : Value} (h : ReportBody sid body)
    (names : List String) : typeNotIn names body = .ok true := by
  simp [TinoHelm.typeNotIn, h.isDict, h.noType, Value.inNames, Value.hash, Except.map]

theorem ReportBody.shouldForwardFill {sid : String} {body : Value} (h : ReportBody sid body)
    (tracker : Option OrderProgressTracker) : shouldForwardFill body tracker = .ok true := by
  simp [TinoHelm.shouldForwardFill, h.noType, Value.isStr]

theorem startsWith_of_onDemand {topic : String} (h : topic ∈ onDemandReportTopics) :
    startsWith topic "tinohelm." = true :=
  (show ∀ t ∈ onDemandReportTopics, startsWith t "tinohelm." = true by decide) topic h

theorem ne_empty_of_onDemand {topic : String} (h : topic ∈ onDemandReportTopics) : topic ≠ "" := by
  rintro rfl
  exact absurd h (by decide)

theorem deliver_report {dec : Decoders} {topic sid : String} {payload : Raw} {body : Value}
    (ht : topic ∈ onDemandReportTopics) (hp : parsePayload dec payload = .ok body)
    (hb : ReportBody sid body) (path : IntakePath) (tracker : Option OrderProgressTracker)
    (registry : Registry) (ch : Channels) :
    (path.deliver dec topic payload tracker registry ch).result =
      .ok (some (⟨path.label topic, body⟩, ch.logging)) := by
  have hs := startsWith_of_onDemand ht
  have hpattern : startsWith "tinohelm.*" "tinohelm." = true := by decide
  cases path with
  | stream =>
    have hf : shouldForwardTopic topic = true :=
      List.any_eq_true.2 ⟨"tinohelm.", by decide, hs⟩
    have hobs : observed dec ⟨some topic.toByteArray, payload⟩ = some (topic, body) := by
      simp [observed, hf, hp, Except.toOption]
    simp only [IntakePath.deliver, forwardStreamEntry_observed hobs, hb.feed,
      hb.componentStatePasses, shouldForwardOrderEvent, shouldForwardEventType, hb.typeNotIn,
      hb.shouldForwardFill, scopeOf, hs, IntakePath.label]
    rfl
  | handler =>
    simp only [IntakePath.deliver, makeHandler, envelopeFor, hp, Except.map, hb.feed,
      hb.componentStatePasses, shouldForwardOrderEvent, shouldForwardEventType, hb.typeNotIn,
      hb.shouldForwardFill, hpattern, IntakePath.label]
    rfl

namespace Loop

variable {s : Loop} {owner : ℕ → ReportKey} {key : ReportKey}

def Dispatches (jobs : List (ℕ × EventEnvelope)) (key : ReportKey) : Prop :=
  ∃ j ∈ jobs, Forwarder.reportKey j.2 = .ok (some key)

/-- What the callbacks in front leave of the futures under `key`. -/
theorem runCallbacks_key (hk : s.fwd.Keyed owner) {jobs rest : List (ℕ × EventEnvelope)}
    (hj : s.callbacks.jobs = jobs ++ rest) (key : ReportKey) :
    (runCallback^[jobs.length] s).fwd.Keyed owner ∧
      (runCallback^[jobs.length] s).callbacks.jobs = rest ∧
      (Dispatches jobs key → (runCallback^[jobs.length] s).fwd.listenersOf key = []) ∧
      (¬Dispatches jobs key →
        (runCallback^[jobs.length] s).fwd.listenersOf key = s.fwd.listenersOf key ∧
        ∀ fut ∈ s.fwd.listenersOf key,
          (runCallback^[jobs.length] s).fwd.futures fut = s.fwd.futures fut) := by
  induction jobs generalizing s with
  | nil => exact ⟨hk, hj, by simp [Dispatches], fun _ => ⟨rfl, fun _ _ => rfl⟩⟩
  | cons j jobs ih =>
    obtain ⟨hjobs, hown, hother⟩ := runCallback_key hk hj key
    obtain ⟨hk', hrest, hdone, hkeep⟩ := ih (keyed_runCallback hk).1 hjobs
    rw [List.length_cons, Function.iterate_succ_apply]
    refine ⟨hk', hrest, fun hd => ?_, fun hd => ?_⟩
    · by_cases htail : Dispatches jobs key
      · exact hdone htail
      · rw [(hkeep htail).1]
        obtain ⟨i, hi, hik⟩ := hd
        rcases List.mem_cons.1 hi with rfl | hi
        · exact hown hik
        · exact absurd ⟨i, hi, hik⟩ htail
    · have hhead : Forwarder.reportKey j.2 ≠ .ok (some key) :=
        fun h => hd ⟨j, List.mem_cons_self, h⟩
      obtain ⟨hl, hf⟩ := hother hhead
      obtain ⟨hl', hf'⟩ := hkeep fun ⟨i, hi, hik⟩ => hd ⟨i, List.mem_cons_of_mem j hi, hik⟩
      refine ⟨hl'.trans hl, fun fut hfut => ?_⟩
      rw [hf' fut (hl.symm ▸ hfut), hf fut hfut]

end Loop

theorem keyed_loopAfter (ops : List ForwarderOp) :
    ∃ owner, (loopAfter ops).fwd.Keyed owner := by
  refine run_invariant (I := fun s : Loop => ∃ owner, s.fwd.Keyed owner)
    ⟨fun _ => ("", .none), Forwarder.keyed_init⟩ (fun s op ⟨owner, h⟩ => ?_) ops
  cases op with
  | watch topic sid => exact ⟨_, h.watch topic sid⟩
  | enqueue env channelId =>
    refine ⟨owner, ?_⟩
    simp only [forwarderStep, Loop.tryEnqueue]
    cases hs : s.enqueue env channelId with
    | error e => exact h
    | ok s' =>
      obtain ⟨-, -, hf, -⟩ := Loop.enqueue_cases hs
      exact hf ▸ h
  | callback => exact ⟨owner, (keyed_runCallback h).1⟩
  | cancel future => exact ⟨owner, h.cancel future⟩
  | drop topic sid future => exact ⟨owner, h.drop topic sid future⟩

namespace Loop

variable {s s' : Loop} {key : ReportKey} {env : EventEnvelope} {n : ℕ}

theorem sends_drain (s : Loop) : s.drain.sends = s.sends := by
  rw [drain]
  generalize s.callbacks.jobs.length = n
  induction n generalizing s with
  | zero => rfl
  | succ n ih => exact (ih s.runCallback).trans (sends_runCallback s)

theorem ordered_runCallbacks (h : s.Ordered) (n : ℕ) : (runCallback^[n] s).Ordered := by
  induction n generalizing s with
  | zero => exact h
  | succ n ih => exact ih h.runCallback

/-- The dispatch just queued runs behind those that were queued before it. -/
theorem drain_push (hc : s'.callbacks = s.callbacks.push env) :
    s'.drain = (runCallback^[s.callbacks.jobs.length] s').runCallback := by
  have hlen : s'.callbacks.jobs.length = s.callbacks.jobs.length + 1 := by
    rw [hc, Fifo.jobs_push, List.length_append, List.length_singleton]
  rw [drain, hlen, Function.iterate_succ_apply']

end Loop

theorem reportKey_body {topic sid : String} {body : Value} (hb : ReportBody sid body)
    (hsid : sid ≠ "") (ht : topic ≠ "") :
    Forwarder.reportKey ⟨topic, body⟩ = .ok (some (topic, .str sid)) := by
  simp [Forwarder.reportKey, hb.isDict, hb.strategyId, hsid, ht, Except.map]

/-- Only a report under its own topic and with an id escapes the normal send. -/
theorem enqueue_not_sent {f : Forwarder} {topic sid : String} {body : Value} {todo : Scheduled}
    (hopen : f.closed = false) (hb : ReportBody sid body) (path : IntakePath)
    (h : f.enqueue ⟨path.label topic, body⟩ = .ok todo) (hsend : todo.send = false) :
    path = .stream ∧ sid ≠ "" := by
  cases path with
  | stream =>
    refine ⟨rfl, ?_⟩
    rintro rfl
    obtain ⟨dispatch, rfl⟩ : ∃ dispatch, todo = ⟨dispatch, true⟩ := by
      by_cases ht : topic ∈ onDemandReportTopics
      · exact ⟨true, by simpa [Forwarder.enqueue, hopen, IntakePath.label, hb.strategyId, ht,
          Except.map, eq_comm] using h⟩
      · exact ⟨false, by simpa [Forwarder.enqueue, hopen, IntakePath.label, ht, eq_comm] using h⟩
    cases hsend
  | handler =>
    have hn : "tinohelm.*" ∉ onDemandReportTopics := by decide
    obtain rfl : todo = ⟨false, true⟩ := by
      simpa [Forwarder.enqueue, hopen, IntakePath.label, hn, eq_comm] using h
    cases hsend

/-- With a key and a listener, a call of `enqueue` queues a dispatch behind the callbacks
that wait already, and sends nothing. -/
theorem enqueue_queued {s s' : Loop} {env : EventEnvelope} {channelId : ℤ} {key : ReportKey}
    (ht : env.topic ∈ onDemandReportTopics) (hkey : Forwarder.reportKey env = .ok (some key))
    (hopen : s.fwd.closed = false) (hw : s.fwd.waiting key ≠ [])
    (hs : s.enqueue env channelId = .ok s') :
    s'.drain = (Loop.runCallback^[s.callbacks.jobs.length] s').runCallback ∧
      s'.fwd = s.fwd ∧ s'.callbacks.jobs = s.callbacks.jobs ++ [(s.ticket, env)] ∧
      s'.sends = s.sends := by
  obtain ⟨todo, htodo, hfwd, -, hc, hsent⟩ := Loop.enqueue_cases hs
  rw [Forwarder.enqueue_key ht hkey hopen] at htodo
  obtain rfl := Except.ok.inj htodo
  have hlisted : (s.fwd.listenersOf key).isEmpty = false := by
    rw [List.isEmpty_eq_false_iff]
    intro hnil
    exact hw (by rw [Forwarder.waiting, hnil]; rfl)
  refine ⟨Loop.drain_push hc, hfwd, by rw [hc]; rfl, ?_⟩
  rw [hsent, hlisted]
  simp

/-- A report of a pod that some request waits for resolves that request's futures and
nothing else happens to it, exactly if it comes over the stream path, its pod has a
non-empty id and no report of the same kind of that pod still waits to be dispatched. -/
theorem report_correlates_iff (dec : Decoders) (ops : List ForwarderOp) {topic sid : String}
    (ht : topic ∈ onDemandReportTopics)
    (hw : (loopAfter ops).fwd.waiting (topic, .str sid) ≠ []) {payload : Raw} {body : Value}
    (hp : parsePayload dec payload = .ok body) (hb : ReportBody sid body) (path : IntakePath)
    (tracker : Option OrderProgressTracker) (registry : Registry) (ch : Channels) :
    Correlates (loopAfter ops) (path.deliver dec topic payload tracker registry ch)
        (topic, .str sid) ↔
      path = .stream ∧ sid ≠ "" ∧
        ¬Loop.Dispatches (loopAfter ops).callbacks.jobs (topic, .str sid) := by
  have hdeliver := deliver_report ht hp hb path tracker registry ch
  have hopen := open_loopAfter ops
  obtain ⟨owner, hkeyed⟩ := keyed_loopAfter ops
  have hordered := ordered_loopAfter ops
  generalize loopAfter ops = s at hw hopen hkeyed hordered ⊢
  have hne := ne_empty_of_onDemand ht
  constructor
  · rintro ⟨env, channelId, s', hr, hs, hsends, hall⟩
    obtain ⟨rfl, rfl⟩ : (⟨path.label topic, body⟩ : EventEnvelope) = env ∧ ch.logging = channelId :=
      Prod.mk.inj (Option.some.inj (Except.ok.inj (hdeliver.symm.trans hr)))
    obtain ⟨todo, htodo, -, -, -, hsent⟩ := Loop.enqueue_cases hs
    have hsend : todo.send = false := by
      rw [Loop.sends_drain, hsent] at hsends
      by_contra hc
      simp [hc] at hsends
    obtain ⟨rfl, hsid⟩ := enqueue_not_sent hopen hb path htodo hsend
    refine ⟨rfl, hsid, fun hd => ?_⟩
    have hkey := reportKey_body hb hsid hne
    obtain ⟨hdrain, hfwd, hjobs, -⟩ := enqueue_queued ht hkey hopen hw hs
    obtain ⟨-, hrest, hdone, -⟩ := Loop.runCallbacks_key (hfwd ▸ hkeyed) hjobs (topic, .str sid)
    have hnone : s'.drain.wakesOf s.ticket = [] := by
      rw [hdrain, Loop.runCallback_wakesOf
        (Loop.ordered_runCallbacks (hordered.enqueue hs) _) (by rw [hrest]; rfl) hkey, Forwarder.waiting, hdone hd, List.filter_nil]
    obtain ⟨fut, hfut⟩ := List.exists_mem_of_ne_nil _ hw
    have hmem : ⟨s.ticket, fut⟩ ∈ s'.drain.wakesOf s.ticket :=
      List.mem_filter.2 ⟨(hall fut hfut).2, by simp⟩
    rw [hnone] at hmem
    cases hmem
  · rintro ⟨rfl, hsid, hq⟩
    have hkey := reportKey_body hb hsid hne
    have hdec := Forwarder.enqueue_key ht hkey hopen
    obtain ⟨s', hs⟩ := Loop.enqueue_ok hdec ch.logging
    obtain ⟨hdrain, hfwd, hjobs, hsame⟩ := enqueue_queued ht hkey hopen hw hs
    obtain ⟨-, hrest, -, hkeep⟩ := Loop.runCallbacks_key (hfwd ▸ hkeyed) hjobs (topic, .str sid)
    obtain ⟨hl, hf⟩ := hkeep hq
    refine ⟨_, _, s', hdeliver, hs, (Loop.sends_drain s').trans hsame, fun fut hfut => ?_⟩
    rw [hdrain]
    refine Loop.runCallback_resolves (by rw [hrest]; rfl) hkey ?_
    rw [Forwarder.waiting, List.mem_filter] at hfut ⊢
    rw [hl, hfwd]
    refine ⟨hfut.1, ?_⟩
    rw [hf fut (hfwd ▸ hfut.1), hfwd]
    exact hfut.2

/-- An operator waits for the fills of `h`. -/
def fillsWatched : List ForwarderOp := [.watch "tinohelm.report.fills" "h"]

def plainDecoders : Decoders := ⟨fun _ => .error .decodeError, fun _ => .error .decodeError⟩

def fillsReport : List (Value × Value) := reportBody none DataFrame.csvWithIndex "h"

/-- The reply of `h` in a stream entry. -/
theorem report_correlates_iff_fills :
    Correlates (loopAfter fillsWatched)
      (IntakePath.stream.deliver plainDecoders "tinohelm.report.fills" (.dict fillsReport) none
        .empty ⟨1, 2, 3⟩) ("tinohelm.report.fills", .str "h") :=
  (report_correlates_iff plainDecoders fillsWatched (by decide) (by decide) rfl
    (reportBody_history none "h") .stream none .empty ⟨1, 2, 3⟩).2
    ⟨rfl, by decide, fun ⟨_, hj, _⟩ => List.not_mem_nil hj⟩

/-- The same reply in process goes to the logging channel, and the operator waits on. -/
theorem handler_reply_not_correlated :
    let reply := IntakePath.handler.deliver plainDecoders "tinohelm.report.fills"
      (.dict fillsReport) none .empty ⟨1, 2, 3⟩
    let env : EventEnvelope := ⟨"tinohelm.*", .dict fillsReport⟩
    reply.result = .ok (some (env, 3)) ∧
      ((loopAfter fillsWatched).tryEnqueue env 3).drain.sends = [⟨0, env, 3⟩] ∧
      ((loopAfter fillsWatched).tryEnqueue env 3).drain.fwd.futures 0 = .pending ∧
      ¬Correlates (loopAfter fillsWatched) reply ("tinohelm.report.fills", .str "h") := by
  refine ⟨rfl, rfl, rfl, ?_⟩
  rintro ⟨env, channelId, s', hr, hs, hsends, -⟩
  obtain ⟨rfl, rfl⟩ := Prod.mk.inj (Option.some.inj (Except.ok.inj hr))
  obtain rfl := Except.ok.inj hs
  exact absurd (congrArg List.length hsends) (by decide)

end TinoHelm

import TinoHelm.Proofs.CommandDelivery
import TinoHelm.Proofs.StreamDelivery
import TinoHelm.Proofs.TableAlignment
import TinoHelm.Spec.Formatters

/-! From `publish_message` of a strategy to the logging channel: every message that is read
off a stream makes one call there, and what is posted for it is what was written. -/

namespace TinoHelm
open Base

variable {py : PyText} {fmt : Formatters} {dec : Decoders} {ch : Channels} {skip : List String}

/-! ### What is posted was rendered from its call -/

namespace SendTasks

variable {s s' : SendTasks}

/-- Every embed is the one of its call, rendered when the tracker was at some state. -/
def Rendered (py : PyText) (fmt : Formatters) (s : SendTasks) : Prop :=
  ∀ p ∈ s.embeds, ∃ call tracker, s.loop.sends[p.1]? = some call ∧
    renderEmbed py fmt call.env none (some tracker) = .ok p.2

theorem Rendered.frame (h : s.Rendered py fmt) (he : s'.embeds = s.embeds)
    (hs : s.loop.sends <+: s'.loop.sends) : s'.Rendered py fmt := by
  intro p hp
  obtain ⟨call, tracker, hcall, hrender⟩ := h p (he ▸ hp)
  exact ⟨call, tracker, getElem?_of_prefix hs hcall, hrender⟩

theorem Rendered.setSemaphore (h : s.Rendered py fmt) (c : ℤ) (sem : Semaphore ℕ) :
    (s.setSemaphore c sem).Rendered py fmt := h.frame rfl List.prefix_rfl

theorem Rendered.post (h : s.Rendered py fmt) {n : ℕ} {call : Sent}
    (hcall : s.loop.sends[n]? = some call) : (s.post py fmt n call).Rendered py fmt := by
  unfold SendTasks.post
  split
  · rename_i embed hrender
    intro p hp
    rcases List.mem_append.1 hp with hp | hp
    · exact h p hp
    · rw [List.mem_singleton.1 hp]
      exact ⟨call, s.tracker, hcall, hrender⟩
  · exact h.frame rfl List.prefix_rfl

theorem Rendered.acquire (h : s.Rendered py fmt) {n : ℕ} {call : Sent}
    (hcall : s.loop.sends[n]? = some call) : (s.acquire py fmt n call).Rendered py fmt := by
  unfold SendTasks.acquire
  dsimp only
  split_ifs
  · exact h.frame rfl List.prefix_rfl
  · exact Rendered.post (h.setSemaphore _ _) hcall

theorem Rendered.step (h : s.Rendered py fmt) (op : SendTaskOp) :
    (sendTasksStep py fmt dec ch s op).Rendered py fmt := by
  have hs := @SendTasks.sends_step py fmt dec ch s op
  cases op with
  | intake src registry =>
    refine h.frame ?_ hs
    simp only [sendTasksStep]
    split <;> rfl
  | forwarder op => exact h.frame rfl hs
  | attachClient => exact h.frame rfl hs
  | start cached =>
    simp only [sendTasksStep] at hs ⊢
    split
    · exact h
    · rename_i call hcall
      split_ifs
      · exact h.frame rfl List.prefix_rfl
      · exact Rendered.acquire (s := s.begin) (h.frame rfl List.prefix_rfl) hcall
      · exact h.frame rfl List.prefix_rfl
  | fetched n answer =>
    simp only [sendTasksStep]
    split
    · exact h
    · rename_i call hat
      split_ifs
      · exact h.acquire (at?_eq_some.1 hat).2
      · exact h.frame rfl List.prefix_rfl
  | resume c =>
    simp only [sendTasksStep]
    split
    · exact h
    · split
      · exact h
      · rename_i n _ _ call hat
        exact Rendered.post (h.setSemaphore _ _) (at?_eq_some.1 hat).2
  | sent n answer =>
    refine h.frame ?_ hs
    simp only [sendTasksStep]
    split
    · rfl
    · split_ifs <;> rfl

theorem rendered_run (rateLimit : ℕ) (ops : List SendTaskOp) :
    (run (sendTasksStep py fmt dec ch) { rateLimit := rateLimit } ops).Rendered py fmt :=
  run_invariant (I := Rendered py fmt) (fun _ hp => absurd hp List.not_mem_nil)
    (fun _ op h => h.step op) ops

end SendTasks

/-! ### The message -/

namespace CustomMessage

/-- The entry NT writes for it. -/
def entry (encode : Value → ByteArray) (m : CustomMessage) : StreamEntry :=
  ⟨some (publishMessage encode m).1.toByteArray, .bytes (publishMessage encode m).2⟩

def envelope (m : CustomMessage) : EventEnvelope := ⟨customMessageTopic, m.payload⟩

/-- The message as it is shown, its text cut at 4000 characters. -/
def embed (m : CustomMessage) : Embed where
  title := m.title
  lines := [.plain (String.ofList (m.text.toList.take 4000))]
  color := .int (m.color.getD defaultCustomColor)
  footer := none

variable (m : CustomMessage)

theorem payload_get : m.payload.get "type" = .none ∧ m.payload.get "client_order_id" = .none ∧
    (∀ default, m.payload.getOr "title" default = .str m.title) ∧
    (∀ default, m.payload.getOr "text" default = .str m.text) ∧
    m.payload.getOr "color" (.int defaultCustomColor) = .int (m.color.getD defaultCustomColor) := by
  cases hc : m.color <;> simp [payload, hc, Value.get, Value.getOr, Value.lookup?]

theorem observed_entry {encode : Value → ByteArray}
    (hround : dec.msgpack (encode m.payload) = .ok m.payload) :
    observed dec (m.entry encode) = some (customMessageTopic, m.payload) := by
  have hf : shouldForwardTopic customMessageTopic = true := by decide
  simp [observed, entry, publishMessage, hf, parsePayload, hround, Except.toOption]

/-- Both gates and tracker leave a message alone. -/
theorem forwarded {encode : Value → ByteArray} (hround : dec.msgpack (encode m.payload) = .ok m.payload)
    (tracker : Option OrderProgressTracker) (registry : Registry) :
    (forwardStreamEntry dec (m.entry encode) tracker registry ch).result =
      .ok (some (m.envelope, ch.logging)) := by
  obtain ⟨htype, horder, -⟩ := m.payload_get
  have hdict : m.payload.isDict = true := rfl
  have hs : startsWith customMessageTopic "tinohelm." = true := by decide
  have hfeed : feed tracker m.payload = (tracker, none) := by
    cases tracker with
    | none => rfl
    | some t =>
      have hkey : OrderProgressTracker.orderKey m.payload = .ok none := by
        simp [OrderProgressTracker.orderKey, horder, Value.truthy]
      simp [feed, OrderProgressTracker.observe, hkey]
  have hstate : componentStatePasses m.payload = true := by
    simp [componentStatePasses, htype, Value.isStr]
  have hnames (names : List String) : typeNotIn names m.payload = .ok true := by
    simp [typeNotIn, hdict, htype, Value.inNames, Value.hash, Except.map]
  have hfill : shouldForwardFill m.payload tracker = .ok true := by
    simp [shouldForwardFill, htype, Value.isStr]
  simp only [forwardStreamEntry_observed (m.observed_entry hround), hfeed, hstate, shouldForwardOrderEvent,
    shouldForwardEventType, hnames, hfill, scopeOf, hs, envelope]
  rfl

/-- The only other outcome is that `discord.Embed` refuses the colour. -/
theorem embed_of_renderEmbed {colorOk : Value → Bool} {wide : Char → Bool}
    {t : OrderProgressTracker} {shown : Embed}
    (h : renderEmbed py (formatters py wide colorOk) m.envelope none (some t) = .ok shown) :
    shown = m.embed := by
  obtain ⟨-, horder, htitle, htext, hcolor⟩ := m.payload_get
  have hbody : embedBody m.payload = m.payload := rfl
  have hprogress : t.progress m.payload = .ok none := by
    rw [OrderProgressTracker.progress, horder]
    rfl
  have htopic : customMessageTopic = "tinohelm.message" := rfl
  rw [envelope, renderEmbed_eq, hbody, hprogress, ok_bind, if_pos htopic] at h
  simp only [formatters, renderCustomMessage, textOr, htitle, htext, hcolor, py.str_str] at h
  split_ifs at h
  exact (Except.ok.inj h).symm

end CustomMessage

variable (py dec ch skip)

/-- In every run: a message that was read off a stream has made one call, to the logging
channel, and what is posted for this call is the message. -/
theorem messages_shown (wide : Char → Bool) (colorOk : Value → Bool) (encode : Value → ByteArray)
    (streams : Streams StreamEntry) (rateLimit : ℕ) (ops : List PipelineOp) (m : CustomMessage)
    (hround : dec.msgpack (encode m.payload) = .ok m.payload) :
    let s := pipelineAfter py (formatters py wide colorOk) dec ch skip streams rateLimit ops
    ∀ k key id, s.handed[k]? = some (key, id, m.entry encode) →
      MadeOneCall s k m.envelope ∧ ∀ n, s.forwarder.entryOf n = some k →
        (∃ call, s.forwarder.tasks.loop.sends[n]? = some call ∧ call.channelId = ch.logging) ∧
          ∀ shown, (n, shown) ∈ s.forwarder.tasks.embeds → shown = m.embed := by
  intro s k key id hk
  have htraced : s.Traced dec ch _ := Pipeline.traced_run streams rateLimit ops
  have hundropped : Undropped dec ch (m.entry encode) m.envelope :=
    fun tracker registry => ⟨ch.logging, m.forwarded hround (some tracker) registry⟩
  have htopic : m.envelope.topic ∉ onDemandReportTopics := by
    change customMessageTopic ∉ onDemandReportTopics
    decide
  refine ⟨(Pipeline.served_run streams rateLimit ops).madeOneCall htraced hk hundropped htopic,
    fun n hn => ?_⟩
  obtain ⟨e, call, registry, he, hcall, -, hobserved, hroute⟩ :=
    htraced.own _ (Pipeline.mem_scheduled hn)
  obtain rfl := Option.some.inj (hk.symm.trans he)
  rw [m.observed_entry hround] at hobserved
  obtain ⟨htop, hbody⟩ := Prod.mk.inj (Option.some.inj hobserved)
  refine ⟨⟨call, hcall, ?_⟩, fun shown hshown => ?_⟩
  · have hscope : scopeOf customMessageTopic m.payload = "" := if_pos (by decide)
    rw [hroute, ← htop, ← hbody, hscope]
    rfl
  · obtain ⟨taskOps, htasks, -⟩ := @Pipeline.tasks_run py (formatters py wide colorOk) dec ch skip
      streams rateLimit ops
    obtain ⟨call', tracker, hcall', hrender⟩ := @SendTasks.rendered_run py
      (formatters py wide colorOk) dec ch rateLimit taskOps (n, shown) (htasks ▸ hshown)
    rw [← htasks] at hcall'
    obtain rfl := Option.some.inj (hcall.symm.trans hcall')
    have henv : call.env = m.envelope := by
      rw [CustomMessage.envelope, htop, hbody]
    exact m.embed_of_renderEmbed (henv ▸ hrender)

/-! A warning of a strategy, on a stream that was discovered before. -/

def warning : CustomMessage := ⟨"risk", "drawdown above **5%**", some 7⟩

def warningDecoders : Decoders where
  msgpack b :=
    if b.toList == (fixMap warning.payload).toList then .ok warning.payload
    else .error .decodeError
  json _ := .error .decodeError

def warningOps : List PipelineOp :=
  [.stream (.discover ["trader-A-001:stream"]),
    .stream (.arrive "trader-A-001:stream" (toLex (1, 0)) (warning.entry fixMap)),
    .stream (.poll fun _ => 1)]

theorem messages_shown_warning :
    let s := pipelineAfter plainText (formatters plainText ideograph fun _ => true) warningDecoders
      ⟨1, 2, 3⟩ [] (fun _ => .empty) 5 warningOps
    s.handed[0]? = some ("trader-A-001:stream", toLex (1, 0), warning.entry fixMap) ∧
      MadeOneCall s 0 warning.envelope ∧ ∀ n, s.forwarder.entryOf n = some 0 →
        (∃ call, s.forwarder.tasks.loop.sends[n]? = some call ∧ call.channelId = 3) ∧
          ∀ shown, (n, shown) ∈ s.forwarder.tasks.embeds → shown = warning.embed := by
  intro s
  have hhanded :
      s.handed[0]? = some ("trader-A-001:stream", toLex (1, 0), warning.entry fixMap) := by
    have hrun := @Pipeline.run_firstEntry plainText (formatters plainText ideograph fun _ => true)
      warningDecoders ⟨1, 2, 3⟩ {} (warning.entry fixMap)
    exact congrArg (·[0]?) ((congrArg EventLoop.handed hrun).trans (EventLoop.handed_single ..))
  exact ⟨hhanded, messages_shown plainText warningDecoders ⟨1, 2, 3⟩ [] ideograph (fun _ => true)
    fixMap _ 5 warningOps warning (if_pos (beq_self_eq_true _)) 0 _ _ hhanded⟩

end TinoHelm

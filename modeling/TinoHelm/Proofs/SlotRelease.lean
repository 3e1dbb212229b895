import TinoHelm.Proofs.CompletedOrders
import TinoHelm.Proofs.ExecutedQuantity
import TinoHelm.Spec.Sending

/-! When a finished `_send` of an order's last event has released the slot. To the
tracker a run of the sender is a run of intakes and releases, and between two events
of an order its slot only stays or goes. -/

namespace TinoHelm
open Base OrderProgressTracker

variable {py : PyText} {fmt : Formatters} {dec : Decoders} {ch : Channels} {k : HashKey}

/-- A handler feeds the tracker like the stream path on the same body. -/
theorem makeHandler_tracker {pattern : String} (h : pattern ∈ subscribePatterns) (msg : Raw)
    (tracker : Option OrderProgressTracker) (registry : Registry) :
    (makeHandler dec pattern msg tracker registry ch).tracker =
      (forwardStreamEntry dec ⟨some pattern.toByteArray, msg⟩ tracker registry ch).tracker := by
  have hforward : shouldForwardTopic pattern = true := by
    revert pattern
    decide
  unfold makeHandler forwardStreamEntry
  simp only [decodeUtf8_toByteArray, hforward, Bool.not_true, Bool.false_eq_true, if_false, routeEvent]
  cases envelopeFor dec pattern msg with
  | error e => rfl
  | ok env =>
    simp only [Except.map]
    cases feed tracker env.body with
    | mk t e =>
      cases e with
      | some e => rfl
      | none => cases componentStatePasses env.body <;> rfl

theorem IntakeSource.take_tracker (src : IntakeSource) (tracker : Option OrderProgressTracker)
    (registry : Registry) :
    (src.take dec tracker registry ch).tracker =
      (forwardStreamEntry dec src.asEntry tracker registry ch).tracker := by
  cases src with
  | entry fields => rfl
  | message pattern h msg => exact makeHandler_tracker h msg tracker registry

/-- What an operation of the sender does to the tracker. -/
def intakeOps (s : Sender) : SenderOp → List IntakeOp
  | .intake src registry => [.entry registry src.asEntry]
  | .sent n _ => ((s.at? n .sending).map fun call => .release call.env.body).toList
  | _ => []

theorem senderStep_tracker (s : Sender) (op : SenderOp) :
    (senderStep py fmt dec ch s op).tracker =
      run (intakeStep dec ch) s.tracker (intakeOps s op) := by
  cases op with
  | intake src registry =>
    simp only [senderStep, intakeOps, run_cons, run_nil, intakeStep, src.take_tracker]
    split <;> rfl
  | forwarder op => rfl
  | start n lookup =>
    simp only [senderStep, intakeOps, run_nil]
    split <;> rfl
  | render n =>
    simp only [senderStep, intakeOps, run_nil]
    split
    · split_ifs
      · split <;> rfl
      · rfl
    · rfl
  | sent n outcome =>
    simp only [senderStep, intakeOps]
    cases s.at? n .sending with
    | none => rfl
    | some call => rfl

def intakesOf (py : PyText) (fmt : Formatters) (dec : Decoders) (ch : Channels) (s : Sender)
    (ops : List SenderOp) : List IntakeOp :=
  trace (senderStep py fmt dec ch) intakeOps s ops

theorem sender_tracker (s : Sender) (ops : List SenderOp) :
    (run (senderStep py fmt dec ch) s ops).tracker =
      run (intakeStep dec ch) s.tracker (intakesOf py fmt dec ch s ops) := by
  induction ops generalizing s with
  | nil => rfl
  | cons op ops ih =>
    rw [run_cons, ih, senderStep_tracker]
    simp only [intakesOf, trace, run_append]

/-- While no event of the order is taken in, its slot stays as it is or goes. -/
theorem slot_of_quiet (t : OrderProgressTracker) {ops : List IntakeOp}
    (h : orderEvents dec k ops = []) :
    (run (intakeStep dec ch) t ops).slot k = none ∨
      (run (intakeStep dec ch) t ops).slot k = t.slot k := by
  induction ops using List.reverseRecOn with
  | nil => exact Or.inr rfl
  | append_singleton pre op ih =>
    rw [orderEvents_snoc, List.append_eq_nil_iff] at h
    have hop : eventOf dec k op = none := by
      cases he : eventOf dec k op with
      | none => rfl
      | some body => simp [he] at h
    rw [run_snoc]
    have hstep := @intakeStep_slot _ dec ch (run (intakeStep dec ch) t pre) op k
    rw [hop] at hstep
    rcases hstep with hstep | hstep
    · exact Or.inl hstep
    · rw [hstep]
      exact ih h.1

/-- The events that end an order: by their type, or a fill that the gate judged complete. -/
def EndsOrder (t : OrderProgressTracker) (k : HashKey) (body : Value) : Prop :=
  (∃ eventType ∈ terminalOrderEvents, body.get "type" = .str eventType) ∨
    body.get "type" = .str "OrderFilled" ∧
      ∃ p, t.slot k = some p ∧ p.qtyTotal ≠ none ∧ p.isComplete = true

/-- What `forget_if_terminal` asks for: by the type, or a remainder of at most zero. -/
def Releases (t : OrderProgressTracker) (k : HashKey) (body : Value) : Prop :=
  (∃ eventType ∈ terminalOrderEvents, body.get "type" = .str eventType) ∨
    ∃ p r, t.slot k = some p ∧ p.remainder = some r ∧ r ≤ 0

/-- Call `n` of `_send`, for an event that ends order `k`, is over with operation `op`. -/
structure EndsSend (py : PyText) (fmt : Formatters) (dec : Decoders) (ch : Channels) (k : HashKey)
    (s : Sender) (n : ℕ) (call : Sent) (ops : List SenderOp) (op : SenderOp) : Prop where
  scheduled : s.loop.sends[n]? = some call
  key : orderKey call.env.body = .ok (some k)
  ends : EndsOrder s.tracker k call.env.body
  quiet : orderEvents dec k (intakesOf py fmt dec ch s ops) = []
  unfinished : (run (senderStep py fmt dec ch) s ops).phases n ≠ .done
  finished : (senderStep py fmt dec ch (run (senderStep py fmt dec ch) s ops) op).phases n = .done

/-- A finished `_send` leaves no slot exactly if it got as far as `channel.send` and
`forget_if_terminal` agrees that the order ended, or the slot was gone before. -/
theorem slot_released_iff {s : Sender} {n : ℕ} {call : Sent} {ops : List SenderOp} {op : SenderOp}
    (h : EndsSend py fmt dec ch k s n call ops op) :
    (senderStep py fmt dec ch (run (senderStep py fmt dec ch) s ops) op).tracker.slot k = none ↔
      (run (senderStep py fmt dec ch) s ops).tracker.slot k = none ∨
        (∃ outcome, op = .sent n outcome) ∧ Releases s.tracker k call.env.body := by
  have hslot := @slot_of_quiet dec ch k s.tracker _ h.quiet
  rw [← sender_tracker] at hslot
  generalize hs' : run (senderStep py fmt dec ch) s ops = s' at hslot
  have hcall : s'.loop.sends[n]? = some call := by
    rw [← hs']
    exact s.sends_run ops h.scheduled
  have hunfinished := h.unfinished
  have hfinished := h.finished
  rw [hs'] at hunfinished hfinished
  rcases Sender.senderStep_done hunfinished hfinished with ⟨lookup, rfl⟩ | rfl | ⟨outcome, rfl, hphase⟩
  · simp only [senderStep_tracker, intakeOps, run_nil]
    simp
  · simp only [senderStep_tracker, intakeOps, run_nil]
    simp
  · have hat : s'.at? n .sending = some call := by
      rw [Sender.at?, if_pos hphase, hcall]
    have hforget : (senderStep py fmt dec ch s' (.sent n outcome)).tracker =
        (s'.tracker.forgetIfTerminal call.env.body).1 := by
      simp only [senderStep, hat]
    rw [hforget, and_iff_right ⟨outcome, rfl⟩]
    rcases h.ends with ⟨eventType, hmem, htype⟩ | ⟨htype, -⟩
    · exact iff_of_true ((forgetIfTerminal_slot_self h.key htype).2 (Or.inr (Or.inl hmem)))
        (Or.inr (Or.inl ⟨eventType, hmem, htype⟩))
    · have hnot : ¬ ∃ eventType ∈ terminalOrderEvents, call.env.body.get "type" = .str eventType := by
        rintro ⟨eventType, hmem, he⟩
        rw [htype] at he
        rw [← Value.str.inj he] at hmem
        revert hmem
        decide
      rw [forgetIfTerminal_slot_self h.key htype, Releases, or_iff_right hnot,
        or_iff_right (show "OrderFilled" ∉ terminalOrderEvents by decide), and_iff_right rfl]
      rcases hslot with hslot | hslot
      · simp [hslot]
      · rw [hslot]

/-! The sender over order events that are JSON text, with every Discord call to come. -/

abbrev plainStep : Sender → SenderOp → Sender :=
  senderStep plainText noFormatters textDecoders ⟨1, 2, 3⟩

abbrev intakeEvent (body : List (String × String)) : SenderOp :=
  .intake (.entry (orderEntry body)) .empty

structure Ready (s : Sender) (t : OrderProgressTracker) : Prop where
  tracker : s.tracker = t
  idle : ∀ m, s.phases m = .queued
  rate : 0 < s.rateLimit
  opened : s.loop.fwd.closed = false

theorem ready_init : Ready {} {} := ⟨rfl, fun _ => rfl, by decide, rfl⟩

theorem Ready.intake {s : Sender} {t : OrderProgressTracker} (hs : Ready s t)
    {body : List (String × String)} (h : (body.map Prod.fst).Nodup) :
    Ready (plainStep s (intakeEvent body)) (t.observe (textBody body)).1 := by
  refine ⟨?_, ?_, ?_, ?_⟩
  · rw [senderStep_tracker, ← hs.tracker]
    simp [intakeOps, intakeStep, IntakeSource.asEntry,
      forwardStreamEntry_tracker (observed_orderEntry h), feed]
  · simp only [senderStep]
    split <;> exact hs.idle
  · simp only [senderStep]
    split <;> exact hs.rate
  · simp only [senderStep]
    split
    · rw [Loop.fwd_tryEnqueue, hs.opened]
    · exact hs.opened

theorem Ready.scheduled {s : Sender} {t : OrderProgressTracker} (hs : Ready s t)
    {body : List (String × String)} (h : (body.map Prod.fst).Nodup)
    (hf : Forwarded textDecoders ⟨1, 2, 3⟩ t .empty (orderEntry body)) :
    ∃ channelId, ((IntakeSource.entry (orderEntry body)).take textDecoders (some s.tracker) .empty
        ⟨1, 2, 3⟩).result = .ok (some (⟨"events.order.S-h", textBody body⟩, channelId)) ∧
      (plainStep s (intakeEvent body)).loop.sends = s.loop.sends ++
        [⟨s.loop.ticket, ⟨"events.order.S-h", textBody body⟩, channelId⟩] := by
  obtain ⟨env, channelId, hresult⟩ := hf
  have hobs := (observed_of_forwarded hresult).1
  rw [observed_orderEntry h, Option.some.injEq, Prod.mk.injEq] at hobs
  obtain rfl : env = ⟨"events.order.S-h", textBody body⟩ := by
    rw [hobs.1, hobs.2]
  rw [← hs.tracker] at hresult
  refine ⟨channelId, hresult, ?_⟩
  simp only [senderStep, IntakeSource.take, hresult]
  exact Loop.sends_tryEnqueue_event channelId hs.opened
    (show "events.order.S-h" ∉ onDemandReportTopics by decide)

/-- A canceled order whose channel cannot be fetched. -/
theorem slot_released_iff_canceled : ∃ s n call,
    EndsSend plainText noFormatters textDecoders ⟨1, 2, 3⟩ (.str "O-1") s n call []
        (.start n .fetchFailed) ∧
      ((plainStep (run plainStep s []) (.start n .fetchFailed)).tracker.slot (.str "O-1") = none ↔
        (run plainStep s []).tracker.slot (.str "O-1") = none ∨
          (∃ outcome, SenderOp.start n .fetchFailed = .sent n outcome) ∧
            Releases s.tracker (.str "O-1") call.env.body) := by
  have hnodup : ((lastEvent "OrderCanceled").map Prod.fst).Nodup := by decide
  obtain ⟨channelId, hforwarded⟩ := forwarded_lastEvent (List.mem_cons_self) {}
  obtain ⟨channelId, -, hsends⟩ := ready_init.scheduled hnodup ⟨_, channelId, hforwarded⟩
  have hs := ready_init.intake hnodup
  obtain ⟨n, hcall⟩ : ∃ n : ℕ, _ = _ := ⟨_, hsends ▸ List.getElem?_concat_length⟩
  generalize plainStep {} (intakeEvent (lastEvent "OrderCanceled")) = s at hcall hs
  have hends : EndsSend plainText noFormatters textDecoders ⟨1, 2, 3⟩ (.str "O-1") s n
      ⟨_, ⟨"events.order.S-h", textBody (lastEvent "OrderCanceled")⟩, channelId⟩ []
      (.start n .fetchFailed) :=
    { scheduled := hcall
      key := rfl
      ends := Or.inl ⟨"OrderCanceled", by decide, rfl⟩
      quiet := rfl
      unfinished := by simp [hs.idle]
      finished := by
        simp [senderStep, Sender.at?, hs.idle, hcall, Sender.setPhase, ChannelLookup.found] }
  exact ⟨s, n, _, hends, slot_released_iff hends⟩

/-! An order for 1 that fills 0.9999999999. -/

def initializedOne : List (String × String) :=
  [("type", "OrderInitialized"), ("client_order_id", "O-1"), ("quantity", "1")]

def filledAlmostOne : List (String × String) :=
  [("type", "OrderFilled"), ("client_order_id", "O-1"), ("last_qty", "0.9999999999"),
    ("last_px", "1")]

theorem nodup_initializedOne : (initializedOne.map Prod.fst).Nodup := by decide

theorem nodup_filledAlmostOne : (filledAlmostOne.map Prod.fst).Nodup := by decide

def almostFilledTracker : OrderProgressTracker :=
  ((({} : OrderProgressTracker).observe (textBody initializedOne)).1.observe
    (textBody filledAlmostOne)).1

theorem almostFilled_scheduled : ∃ s, Ready s almostFilledTracker ∧
    ∃ (n : ℕ) (call : Sent), s.loop.sends[n]? = some call ∧
      call.env = ⟨"events.order.S-h", textBody filledAlmostOne⟩ := by
  have hinit := ready_init.intake nodup_initializedOne
  have hlast : numField (textBody filledAlmostOne) "last_qty" =
      some (.fin (562949953365017 / 2 ^ 49)) := by decide +kernel
  have hforwarded := hinit.scheduled nodup_filledAlmostOne (by
    rw [forwarded_fill_iff (observed_orderEntry nodup_filledAlmostOne) rfl rfl hlast]
    exact ⟨⟨some (.fin 1), by decide +kernel⟩, by decide +kernel⟩)
  obtain ⟨channelId, -, hsends⟩ := hforwarded
  generalize plainStep {} (intakeEvent initializedOne) = s at hinit hsends
  refine ⟨_, hinit.intake nodup_filledAlmostOne, s.loop.sends.length,
    ⟨s.loop.ticket, ⟨"events.order.S-h", textBody filledAlmostOne⟩, channelId⟩, ?_, rfl⟩
  rw [hsends]
  exact List.getElem?_concat_length

theorem exists_ok_of_isOk {ε α : Type} {x : Except ε α} (h : x.isOk = true) : ∃ a, x = .ok a := by
  cases x with
  | ok a => exact ⟨a, rfl⟩
  | error e => simp [Except.isOk, Except.toBool] at h

/-- The gate calls the order complete, the tracker does not, and the slot stays. -/
theorem almost_filled_order_keeps_slot :
    ¬ ∀ s n call ops op,
      EndsSend plainText noFormatters textDecoders ⟨1, 2, 3⟩ (.str "O-1") s n call ops op →
      (plainStep (run plainStep s ops) op).tracker.slot (.str "O-1") = none := by
  intro h
  obtain ⟨s, hs, n, ⟨ticket, env, channelId⟩, hcall, rfl⟩ := almostFilled_scheduled
  have hkey : orderKey (textBody filledAlmostOne) = .ok (some (.str "O-1")) := rfl
  obtain ⟨embed, hembed⟩ : ∃ embed, renderEmbed plainText noFormatters
      ⟨"events.order.S-h", textBody filledAlmostOne⟩ none (some s.tracker) = .ok embed := by
    rw [hs.tracker]
    exact exists_ok_of_isOk (by decide +kernel)
  have hrun := @Sender.run_start_render plainText noFormatters textDecoders ⟨1, 2, 3⟩ _ _ _ _ hcall
    hs.idle hs.rate hembed
  have hslot : (s.tracker.slot (.str "O-1")).map (fun p =>
      (p.qtyTotal, p.isComplete, p.remainder)) =
        some (some (.fin 1), true, some (.fin (56295 / 2 ^ 49))) := by
    rw [hs.tracker]
    decide +kernel
  obtain ⟨p, hp, hfields⟩ := Option.map_eq_some_iff.1 hslot
  simp only [Prod.mk.injEq] at hfields
  have hgone := h s n _ [.start n .cached, .render n] (.sent n .ok)
    { scheduled := hcall
      key := hkey
      ends := Or.inr ⟨rfl, p, hp, by simp [hfields.1], hfields.2.1⟩
      quiet := rfl
      unfinished := by
        rw [hrun]
        simp [Sender.setPhase]
      finished := by
        rw [hrun]
        simp [senderStep, Sender.at?, Sender.setPhase, hcall] }
  rw [hrun, senderStep_tracker] at hgone
  simp only [intakeOps, Sender.at?, Sender.setPhase, Function.update_self, if_true, hcall,
    Option.map_some, Option.toList_some, run_cons, run_nil, intakeStep] at hgone
  rw [forgetIfTerminal_slot_self hkey rfl, hp] at hgone
  rcases hgone with hnone | hterminal | ⟨-, q, r, hq, hr, hle⟩
  · cases hnone
  · exact absurd hterminal (by decide)
  · rw [← Option.some.inj hq, hfields.2.2, Option.some.injEq] at hr
    rw [← hr] at hle
    exact absurd hle (by decide +kernel)

end TinoHelm

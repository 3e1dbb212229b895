import TinoHelm.Base.Machine
import TinoHelm.Spec.Forwarder
import TinoHelm.Spec.Render

/-! `DiscordForwarder._send` on the loop, next to the intake that feeds the tracker it
renders from. A scheduled `_send` starts, waits for its channel and for the semaphore
of the channel, renders, and releases the slot of a terminal event when
`channel.send` is over; the others may run at every point in between. -/

namespace TinoHelm
open Base

/-- An event on either intake path: a stream entry, or a bus message of a subscription. -/
inductive IntakeSource where
  | entry (fields : StreamEntry)
  | message (pattern : String) (subscribed : pattern ∈ subscribePatterns) (msg : Raw)

namespace IntakeSource

def take (src : IntakeSource) (dec : Decoders) (tracker : Option OrderProgressTracker)
    (registry : Registry) (ch : Channels) : Intake :=
  match src with
  | entry fields => forwardStreamEntry dec fields tracker registry ch
  | message pattern _ msg => makeHandler dec pattern msg tracker registry ch

/-- The stream entry that the tracker cannot tell from it. -/
def asEntry : IntakeSource → StreamEntry
  | entry fields => fields
  | message pattern _ msg => ⟨some pattern.toByteArray, msg⟩

end IntakeSource

inductive SendPhase where
  | queued
  | waiting
  | sending
  | done
deriving DecidableEq

/-- What `_send` finds when it starts: `get_channel`, then `fetch_channel`. -/
inductive ChannelLookup where
  | noClient
  | cached
  | fetched
  | fetchFailed
deriving DecidableEq

def ChannelLookup.found : ChannelLookup → Bool
  | cached | fetched => true
  | noClient | fetchFailed => false

inductive SendOutcome where
  | ok
  | httpException
deriving DecidableEq

/-- The calls of `_send` are those in `loop.sends`, by their place there. `embeds` logs
what was handed to `channel.send`. -/
structure Sender where
  loop : Loop := {}
  tracker : OrderProgressTracker := {}
  rateLimit : ℕ := 5
  phases : ℕ → SendPhase := fun _ => .queued
  embeds : List (ℕ × Embed) := []

inductive SenderOp where
  | intake (src : IntakeSource) (registry : Registry)
  | forwarder (op : ForwarderOp)
  | start (n : ℕ) (lookup : ChannelLookup)
  | render (n : ℕ)
  | sent (n : ℕ) (outcome : SendOutcome)

namespace Sender

def setPhase (s : Sender) (n : ℕ) (phase : SendPhase) : Sender :=
  { s with phases := Function.update s.phases n phase }

def at? (s : Sender) (n : ℕ) (phase : SendPhase) : Option Sent :=
  if s.phases n = phase then s.loop.sends[n]? else none

def free (s : Sender) (channelId : ℤ) : Bool :=
  ((List.range s.loop.sends.length).filter fun n =>
    (s.at? n .sending).any (·.channelId = channelId)).length < s.rateLimit

end Sender

variable (py : PyText) (fmt : Formatters) (dec : Decoders) (ch : Channels)

def senderStep (s : Sender) : SenderOp → Sender
  | .intake src registry =>
    let i := src.take dec (some s.tracker) registry ch
    let s := { s with tracker := i.tracker.getD s.tracker }
    match i.result with
    | .ok (some (env, channelId)) => { s with loop := s.loop.tryEnqueue env channelId }
    | _ => s
  | .forwarder op => { s with loop := forwarderStep s.loop op }
  | .start n lookup =>
    match s.at? n .queued with
    | some _ => s.setPhase n (if lookup.found then .waiting else .done)
    | none => s
  | .render n =>
    match s.at? n .waiting with
    | some call =>
      if s.free call.channelId then
        match renderEmbed py fmt call.env none (some s.tracker) with
        | .ok embed => { s.setPhase n .sending with embeds := s.embeds ++ [(n, embed)] }
        | .error _ => s.setPhase n .done
      else s
    | none => s
  | .sent n _ =>
    match s.at? n .sending with
    | some call =>
      { s.setPhase n .done with tracker := (s.tracker.forgetIfTerminal call.env.body).1 }
    | none => s

namespace Loop

theorem sends_tryEnqueue (s : Loop) (env : EventEnvelope) (channelId : ℤ) :
    s.sends <+: (s.tryEnqueue env channelId).sends := by
  unfold tryEnqueue enqueue
  cases s.fwd.enqueue env with
  | error e => exact List.prefix_rfl
  | ok todo =>
    simp only [Except.map]
    split_ifs
    · exact List.prefix_append _ _
    · exact List.prefix_rfl

theorem sends_forwarderStep (s : Loop) (op : ForwarderOp) :
    s.sends <+: (forwarderStep s op).sends := by
  cases op with
  | enqueue env channelId => exact s.sends_tryEnqueue env channelId
  | callback => rw [forwarderStep, sends_runCallback]
  | watch topic sid => exact List.prefix_rfl
  | cancel future => exact List.prefix_rfl
  | drop topic sid future => exact List.prefix_rfl

/-- On an open loop an event that is no report is always scheduled. -/
theorem sends_tryEnqueue_event {s : Loop} {env : EventEnvelope} (channelId : ℤ)
    (hopen : s.fwd.closed = false) (ht : env.topic ∉ onDemandReportTopics) :
    (s.tryEnqueue env channelId).sends = s.sends ++ [⟨s.ticket, env, channelId⟩] := by
  simp [tryEnqueue, enqueue, Forwarder.enqueue, hopen, ht, Except.map]

end Loop

namespace Sender

variable {py fmt dec ch}

theorem sends_senderStep (s : Sender) (op : SenderOp) :
    s.loop.sends <+: (senderStep py fmt dec ch s op).loop.sends := by
  cases op with
  | intake src registry =>
    simp only [senderStep]
    split
    · exact s.loop.sends_tryEnqueue _ _
    · exact List.prefix_rfl
  | forwarder op => exact s.loop.sends_forwarderStep op
  | start n lookup =>
    simp only [senderStep]
    split <;> exact List.prefix_rfl
  | render n =>
    simp only [senderStep]
    split
    · split_ifs
      · split <;> exact List.prefix_rfl
      · exact List.prefix_rfl
    · exact List.prefix_rfl
  | sent n outcome =>
    simp only [senderStep]
    split <;> exact List.prefix_rfl

theorem sends_run (s : Sender) (ops : List SenderOp) {n : ℕ} {call : Sent}
    (h : s.loop.sends[n]? = some call) :
    (run (senderStep py fmt dec ch) s ops).loop.sends[n]? = some call := by
  refine @run_invariant _ _ (senderStep py fmt dec ch) _ (fun s => s.loop.sends[n]? = some call) h
    (fun s op hs => ?_) ops
  obtain ⟨more, hmore⟩ := @sends_senderStep py fmt dec ch s op
  rw [← hmore, List.getElem?_append_left (List.getElem?_eq_some_iff.1 hs).1]
  exact hs

/-- The three ways a call of `_send` ends: no channel, a renderer that raises, and after
`channel.send`. -/
theorem senderStep_done {s : Sender} {op : SenderOp} {n : ℕ} (hn : s.phases n ≠ .done)
    (h : (senderStep py fmt dec ch s op).phases n = .done) :
    (∃ lookup, op = .start n lookup) ∨ op = .render n ∨
      ∃ outcome, op = .sent n outcome ∧ s.phases n = .sending := by
  cases op with
  | intake src registry =>
    simp only [senderStep] at h
    split at h <;> exact absurd h hn
  | forwarder op => exact absurd h hn
  | start m lookup =>
    simp only [senderStep] at h
    split at h
    · by_cases hm : n = m
      · exact Or.inl ⟨lookup, by rw [hm]⟩
      · simp only [setPhase, Function.update_of_ne hm] at h
        exact absurd h hn
    · exact absurd h hn
  | render m =>
    by_cases hm : n = m
    · exact Or.inr (Or.inl (by rw [hm]))
    · simp only [senderStep] at h
      split at h
      · split_ifs at h
        · split at h <;> simp only [setPhase, Function.update_of_ne hm] at h <;> exact absurd h hn
        · exact absurd h hn
      · exact absurd h hn
  | sent m outcome =>
    by_cases hm : n = m
    · subst hm
      refine Or.inr (Or.inr ⟨outcome, rfl, ?_⟩)
      by_contra hne
      simp only [senderStep, at?, if_neg hne] at h
      exact hn h
    · simp only [senderStep] at h
      split at h
      · simp only [setPhase, Function.update_of_ne hm] at h
        exact absurd h hn
      · exact absurd h hn

/-- What is handed to `channel.send` was rendered from the tracker of that moment. -/
theorem embeds_render {s : Sender} {n : ℕ} {embed : Embed}
    (h : (senderStep py fmt dec ch s (.render n)).embeds = s.embeds ++ [(n, embed)]) :
    ∃ call, s.loop.sends[n]? = some call ∧
      renderEmbed py fmt call.env none (some s.tracker) = .ok embed := by
  have hne : ∀ l : List (ℕ × Embed), l ≠ l ++ [(n, embed)] := by
    intro l hl
    simpa using congrArg List.length hl
  simp only [senderStep] at h
  cases hat : s.at? n .waiting with
  | none =>
    rw [hat] at h
    exact absurd h (hne _)
  | some call =>
    rw [hat] at h
    dsimp only at h
    split_ifs at h
    · cases hr : renderEmbed py fmt call.env none (some s.tracker) with
      | error e =>
        rw [hr] at h
        exact absurd h (hne _)
      | ok embed' =>
        rw [hr] at h
        simp only [List.append_cancel_left_eq, List.cons.injEq, Prod.mk.injEq, true_and,
          and_true] at h
        refine ⟨call, ?_, by rw [hr, h]⟩
        unfold at? at hat
        split_ifs at hat
        exact hat
    · exact absurd h (hne _)

theorem start_cached {s : Sender} {n : ℕ} {call : Sent} (hcall : s.loop.sends[n]? = some call)
    (hidle : s.phases n = .queued) :
    senderStep py fmt dec ch s (.start n .cached) = s.setPhase n .waiting := by
  simp [senderStep, at?, hidle, hcall, ChannelLookup.found]

/-- A call that has its channel for itself renders from the tracker as it is. -/
theorem render_alone {s : Sender} {n : ℕ} {call : Sent} {embed : Embed}
    (hcall : s.loop.sends[n]? = some call) (hidle : ∀ m, s.phases m = .queued)
    (hrate : 0 < s.rateLimit)
    (hrender : renderEmbed py fmt call.env none (some s.tracker) = .ok embed) :
    senderStep py fmt dec ch (s.setPhase n .waiting) (.render n) =
      { (s.setPhase n .waiting).setPhase n .sending with embeds := s.embeds ++ [(n, embed)] } := by
  have hat : (s.setPhase n .waiting).at? n .waiting = some call := by
    simp [setPhase, at?, hcall]
  have hnone : ∀ m, (s.setPhase n .waiting).at? m .sending = none := by
    intro m
    rw [at?, if_neg]
    by_cases hm : m = n
    · simp [setPhase, hm]
    · simp [setPhase, hm, hidle]
  have hfree : (s.setPhase n .waiting).free call.channelId = true := by
    simp only [free, hnone, Option.any_none, List.filter_false, List.length_nil]
    exact decide_eq_true hrate
  have htracker : (s.setPhase n .waiting).tracker = s.tracker := rfl
  simp only [senderStep, hat, hfree, if_true, htracker, hrender]
  rfl

theorem run_start_render {s : Sender} {n : ℕ} {call : Sent} {embed : Embed}
    (hcall : s.loop.sends[n]? = some call) (hidle : ∀ m, s.phases m = .queued)
    (hrate : 0 < s.rateLimit)
    (hrender : renderEmbed py fmt call.env none (some s.tracker) = .ok embed) :
    run (senderStep py fmt dec ch) s [.start n .cached, .render n] =
      { (s.setPhase n .waiting).setPhase n .sending with embeds := s.embeds ++ [(n, embed)] } := by
  rw [run_cons, run_cons, run_nil, start_cached hcall (hidle n),
    render_alone hcall hidle hrate hrender]

end Sender
end TinoHelm

import TinoHelm.Base.Semaphore
import TinoHelm.Spec.Sending

/-! The tasks of `DiscordForwarder._send`, down to `asyncio.Semaphore`. The loop starts
them in the order `enqueue` scheduled them in; a task looks for its channel, waits for
the semaphore of the channel, and holds it while `channel.send` is out. What the tasks
await is answered in any order. -/

namespace TinoHelm
open Base

/-- How a call of discord.py that a task awaits ends. -/
inductive Answer where
  | ok
  | httpException
  | raised
deriving DecidableEq

inductive TaskEnd where
  | noClient
  | notFetched (answer : Answer)
  | renderRaised
  | answered (answer : Answer)
deriving DecidableEq

inductive TaskPhase where
  | queued
  | looking
  | acquiring
  | sending
  | done (ending : TaskEnd)
deriving DecidableEq

/-- `channel.send` was called. -/
def TaskPhase.posted : TaskPhase → Bool
  | sending | done (.answered _) => true
  | _ => false

def TaskPhase.isDone : TaskPhase → Bool
  | done _ => true
  | _ => false

/-- The tasks are those of the calls in `loop.sends`, the first `started` of which run.
`client` says whether a client is attached. -/
structure SendTasks where
  loop : Loop := {}
  tracker : OrderProgressTracker := {}
  rateLimit : ℕ := 5
  client : Bool := false
  semaphores : Dict ℤ (Semaphore ℕ) := .empty
  started : ℕ := 0
  phases : ℕ → TaskPhase := fun _ => .queued
  embeds : List (ℕ × Embed) := []

/-- `start cached`: the oldest scheduled task runs up to its first `await`; `cached` says
whether `get_channel` finds its channel. `resume` runs the oldest task that the
semaphore of the channel woke. -/
inductive SendTaskOp where
  | intake (src : IntakeSource) (registry : Registry)
  | forwarder (op : ForwarderOp)
  | attachClient
  | start (cached : Bool)
  | fetched (n : ℕ) (answer : Answer)
  | resume (channelId : ℤ)
  | sent (n : ℕ) (answer : Answer)

namespace SendTasks

def setPhase (s : SendTasks) (n : ℕ) (phase : TaskPhase) : SendTasks :=
  { s with phases := Function.update s.phases n phase }

def at? (s : SendTasks) (n : ℕ) (phase : TaskPhase) : Option Sent :=
  if s.phases n = phase then s.loop.sends[n]? else none

def semaphoreFor (s : SendTasks) (channelId : ℤ) : Semaphore ℕ :=
  (s.semaphores.get? channelId).getD (.new s.rateLimit)

def setSemaphore (s : SendTasks) (channelId : ℤ) (sem : Semaphore ℕ) : SendTasks :=
  { s with semaphores := s.semaphores.set channelId sem }

def release (s : SendTasks) (channelId : ℤ) : SendTasks :=
  s.setSemaphore channelId (s.semaphoreFor channelId).release

def begin (s : SendTasks) : SendTasks :=
  { s.setPhase s.started .looking with started := s.started + 1 }

variable (py : PyText) (fmt : Formatters)

/-- Inside `async with`, up to `channel.send`. An exception of the renderer leaves the
block and ends the task. -/
def post (s : SendTasks) (n : ℕ) (call : Sent) : SendTasks :=
  match renderEmbed py fmt call.env none (some s.tracker) with
  | .ok embed => { s.setPhase n .sending with embeds := s.embeds ++ [(n, embed)] }
  | .error _ => (s.release call.channelId).setPhase n (.done .renderRaised)

def acquire (s : SendTasks) (n : ℕ) (call : Sent) : SendTasks :=
  let sem := s.semaphoreFor call.channelId
  if h : sem.locked = true then
    (s.setSemaphore call.channelId (sem.wait n h)).setPhase n .acquiring
  else post py fmt (s.setSemaphore call.channelId sem.take) n call

end SendTasks

variable (py : PyText) (fmt : Formatters) (dec : Decoders) (ch : Channels)

def sendTasksStep (s : SendTasks) : SendTaskOp → SendTasks
  | .intake src registry =>
    let i := src.take dec (some s.tracker) registry ch
    let s := { s with tracker := i.tracker.getD s.tracker }
    match i.result with
    | .ok (some (env, channelId)) => { s with loop := s.loop.tryEnqueue env channelId }
    | _ => s
  | .forwarder op => { s with loop := forwarderStep s.loop op }
  | .attachClient => { s with client := true }
  | .start cached =>
    match s.loop.sends[s.started]? with
    | none => s
    | some call =>
      if !s.client then s.begin.setPhase s.started (.done .noClient)
      else if cached then s.begin.acquire py fmt s.started call
      else s.begin
  | .fetched n answer =>
    match s.at? n .looking with
    | none => s
    | some call =>
      if answer = .ok then s.acquire py fmt n call
      else s.setPhase n (.done (.notFetched answer))
  | .resume channelId =>
    let sem := s.semaphoreFor channelId
    match sem.woken.head? with
    | none => s
    | some n =>
      match s.at? n .acquiring with
      | none => s
      | some call => (s.setSemaphore channelId sem.resume).post py fmt n call
  | .sent n answer =>
    match s.at? n .sending with
    | none => s
    | some call =>
      let s := (s.release call.channelId).setPhase n (.done (.answered answer))
      -- any other exception of `channel.send` skips the end of `_send`
      if answer = .raised then s
      else { s with tracker := (s.tracker.forgetIfTerminal call.env.body).1 }

end TinoHelm

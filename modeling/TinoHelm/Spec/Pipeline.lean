import TinoHelm.Spec.EventLoop
import TinoHelm.Spec.SendTasks

/-! The whole way of an event in the notifier: `_event_stream_loop` reads the streams,
`_forward_stream_entry` takes each entry to `enqueue`, and the tasks of `_send` take it
to Discord. The loop, the tasks, the readers that fill the registry and the other
callers of `enqueue` take their turns in any order. -/

namespace TinoHelm
open Base

/-- `entries` counts the calls of `_forward_stream_entry`; `scheduled` pairs the calls of
`_send` that they made with the number of the one that made it. -/
structure StreamIntake where
  tasks : SendTasks := {}
  registry : Registry := .empty
  entries : ℕ := 0
  scheduled : List (ℕ × ℕ) := []

def StreamIntake.entryOf (s : StreamIntake) (n : ℕ) : Option ℕ := s.scheduled.lookup n

variable (py : PyText) (fmt : Formatters) (dec : Decoders) (ch : Channels)

def entryRaises (s : StreamIntake) (fields : StreamEntry) : Bool :=
  match (forwardStreamEntry dec fields (some s.tasks.tracker) s.registry ch).result with
  | .error _ => true
  | .ok none => false
  | .ok (some (env, channelId)) => !(s.tasks.loop.enqueue env channelId).isOk

/-- One call of `_forward_stream_entry`, and whether it raised. -/
def forwardEntry (s : StreamIntake) (fields : StreamEntry) : StreamIntake × Bool :=
  let tasks := sendTasksStep py fmt dec ch s.tasks (.intake (.entry fields) s.registry)
  let calls := s.tasks.loop.sends.length
  ({ s with
      tasks
      entries := s.entries + 1
      scheduled :=
        if calls < tasks.loop.sends.length then s.scheduled ++ [(calls, s.entries)]
        else s.scheduled }, entryRaises dec ch s fields)

abbrev Pipeline := EventLoop StreamIntake StreamEntry

inductive PipelineOp where
  | stream (op : EventLoopOp StreamEntry)
  | task (op : SendTaskOp)
  | announces (entries : List Announce)
  | scan (keys : List String)

def pipelineStep (skip : List String) (s : Pipeline) : PipelineOp → Pipeline
  | .stream op => eventLoopStep (forwardEntry py fmt dec ch) skip s op
  | .task op =>
    let tasks := sendTasksStep py fmt dec ch s.forwarder.tasks op
    { s with forwarder := { s.forwarder with tasks } }
  | .announces entries =>
    let registry := applyAnnounces s.forwarder.registry entries
    { s with forwarder := { s.forwarder with registry } }
  | .scan keys =>
    let registry := applyFallbackScan keys s.forwarder.registry
    { s with forwarder := { s.forwarder with registry } }

/-- A run from the start: nothing is discovered, announced or scheduled yet. -/
def pipelineAfter (skip : List String) (streams : Streams StreamEntry) (rateLimit : ℕ)
    (ops : List PipelineOp) : Pipeline :=
  run (pipelineStep py fmt dec ch skip)
    { streams, forwarder := { tasks := { rateLimit := rateLimit } } } ops

end TinoHelm

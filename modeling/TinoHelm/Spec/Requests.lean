import TinoHelm.Spec.Commands
import TinoHelm.Spec.Forwarder

/-! Concurrent `_request_report` calls over one forwarder. A call runs without
interruption between two of its awaits, so it is a record with a phase, and a step
takes it from one await to the next. -/

namespace TinoHelm
open Base

/-- Which await the call is in. After the timeout the pending futures are cancelled;
the coroutine itself goes on later. -/
inductive Phase where
  | publishing
  | waiting
  | expired
  | finished
  | failed
deriving DecidableEq

structure Request where
  channelId : ℤ
  topic : String
  futures : List (String × ℕ)
  phase : Phase

/-- `{sid: forwarder.watch_report(report_topic, sid) for sid in targets}` -/
def watchAll (f : Forwarder) (topic : String) : List String → Forwarder × List (String × ℕ)
  | [] => (f, [])
  | sid :: targets =>
    let (f, fut) := f.watchReport topic sid
    let (f, futures) := watchAll f topic targets
    (f, (sid, fut) :: futures)

/-- The timeout branch cancels what is not done. -/
def cancelAll (f : Forwarder) (futures : List (String × ℕ)) : Forwarder :=
  futures.foldl (fun f e => f.cancel e.2) f

def dropAll (f : Forwarder) (topic : String) (futures : List (String × ℕ)) : Forwarder :=
  futures.foldl (fun f e => f.dropReportListener topic e.1 e.2) f

/-- The final loop: every reply is enqueued to the channel of the request, in the
order of the targets. Returns the number of each call. -/
def postReplies (s : Loop) (channelId : ℤ) :
    List (String × FutureState) → Loop × List (String × ℕ)
  | [] => (s, [])
  | (sid, .resolved env) :: rest =>
    match s.enqueue env channelId with
    | .error _ => (s, [])
    | .ok s' =>
      let (final, posted) := postReplies s' channelId rest
      (final, (sid, s.ticket) :: posted)
  | (_, _) :: rest => postReplies s channelId rest

namespace Request

def done (r : Request) (f : Forwarder) : Bool :=
  r.futures.all fun e => !(f.futures e.2).isPending

def replies (r : Request) (f : Forwarder) : List (String × FutureState) :=
  r.futures.map fun e => (e.1, f.futures e.2)

end Request

structure Requests where
  loop : Loop := {}
  requests : List Request := []

inductive RequestOp where
  | start (registry : Registry) (channelId : Option ℤ) (kind : ReportCommand)
      (strategy : Option String)
  | published (r : ℕ)
  | publishFails (r : ℕ)
  | intake (env : EventEnvelope) (channelId : ℤ)
  | callback
  | gathered (r : ℕ)
  | expire (r : ℕ)
  | collect (r : ℕ)
  | cancelled (r : ℕ)

namespace Requests

def setPhase (s : Requests) (r : ℕ) (req : Request) (phase : Phase) : Requests :=
  { s with requests := s.requests.set r { req with phase } }

/-- The call, if it is in the given phase. -/
def inPhase (s : Requests) (r : ℕ) (phase : Phase) : Option Request :=
  s.requests[r]?.filter fun req => req.phase = phase

def start (s : Requests) (ch : Channels) (registry : Registry) (channelId : Option ℤ)
    (kind : ReportCommand) (strategy : Option String) : Requests :=
  match channelId, requestTargets ch registry channelId strategy with
  | some id, .ok targets =>
    let (fwd, futures) := watchAll s.loop.fwd kind.reportTopic targets
    { loop := { s.loop with fwd }
      requests := s.requests ++ [⟨id, kind.reportTopic, futures, .publishing⟩] }
  | _, _ => s

def expire (s : Requests) (r : ℕ) : Requests :=
  match s.inPhase r .waiting with
  | none => s
  | some req =>
    { s with loop := { s.loop with fwd := cancelAll s.loop.fwd req.futures } }.setPhase r req
      .expired

/-- The call whose wait the step ends, with the loop it goes on to post its replies
on: all futures are done, or the `except TimeoutError` branch has run. -/
def waitEnds (s : Requests) : RequestOp → Option (ℕ × Request × Loop)
  | .gathered r =>
    match s.inPhase r .waiting with
    | none => none
    | some req => if req.done s.loop.fwd then some (r, req, s.loop) else none
  | .collect r =>
    match s.inPhase r .expired with
    | none => none
    | some req =>
      some (r, req, { s.loop with fwd := dropAll s.loop.fwd req.topic req.futures })
  | _ => none

/-- From the end of the wait to the last `enqueue` there is no await. -/
def finish (s : Requests) : Option (ℕ × Request × Loop) → Requests
  | none => s
  | some (r, req, loop) =>
    { s with loop := (postReplies loop req.channelId (req.replies loop.fwd)).1 }.setPhase r req
      .finished

/-- An exception leaves the call; while it waits, the gather cancels its futures. -/
def abort (s : Requests) (r : ℕ) : Requests :=
  match s.requests[r]? with
  | none => s
  | some req =>
    match req.phase with
    | .publishing | .expired => s.setPhase r req .failed
    | .waiting =>
      { s with loop := { s.loop with fwd := cancelAll s.loop.fwd req.futures } }.setPhase r req
        .failed
    | .finished | .failed => s

end Requests

def requestStep (ch : Channels) (s : Requests) : RequestOp → Requests
  | .start registry channelId kind strategy => s.start ch registry channelId kind strategy
  | .published r =>
    match s.inPhase r .publishing with
    | none => s
    | some req => s.setPhase r req .waiting
  | .publishFails r =>
    match s.inPhase r .publishing with
    | none => s
    | some req => s.setPhase r req .failed
  | .intake env channelId => { s with loop := s.loop.tryEnqueue env channelId }
  | .callback => { s with loop := s.loop.runCallback }
  | .gathered r => s.finish (s.waitEnds (.gathered r))
  | .expire r => s.expire r
  | .collect r => s.finish (s.waitEnds (.collect r))
  | .cancelled r => s.abort r

end TinoHelm

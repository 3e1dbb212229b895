import TinoHelm.Base.Dict
import TinoHelm.Base.Log
import TinoHelm.Base.Machine
import TinoHelm.Base.Text
import TinoHelm.Spec.Registry

/-! `_event_stream_loop` of `notifier/runner.py` over the streams of Redis. What an
entry is and what `_forward_stream_entry` does with it are parameters: all the loop
sees of a call is whether it raised. -/

namespace TinoHelm
open Base

variable {σ α : Type}

abbrev Streams (α : Type) := String → Log StreamId α

/-- `tails` keeps the tail id recorded when a stream was first discovered, `handed` the
calls of `_forward_stream_entry`. -/
structure EventLoop (σ α : Type) where
  streams : Streams α
  cursors : Dict String StreamId := .empty
  tails : Dict String StreamId := .empty
  handed : List (String × StreamId × α) := []
  forwarder : σ

def eventStreamGlob : String := "trader-*:stream"

/-- The keys that `KEYS` returned, without those NT reads itself; sorted. -/
def discoverEventStreams (keys skip : List String) : List String :=
  (keys.filter fun key => matchesGlob key eventStreamGlob && !skip.contains key).mergeSort
    (fun a b => decide (a ≤ b))

def streamTailCursor (s : EventLoop σ α) (key : String) : StreamId := (s.streams key).lastId

namespace EventLoop

def arrive (s : EventLoop σ α) (key : String) (id : StreamId) (entry : α) : EventLoop σ α :=
  { s with streams := Function.update s.streams key ((s.streams key).push id entry) }

theorem streams_arrive (s : EventLoop σ α) (key : String) (id : StreamId) (entry : α) (k : String) :
    (s.arrive key id entry).streams k =
      if k = key then (s.streams k).push id entry else s.streams k := by
  by_cases h : k = key
  · subst h
    simp [arrive]
  · simp [arrive, h]

/-- A key that has no cursor yet gets one behind the present tail. -/
def watch (s : EventLoop σ α) (key : String) : EventLoop σ α :=
  if key ∈ s.cursors.keys then s
  else
    { s with
      cursors := s.cursors.set key (streamTailCursor s key)
      tails := s.tails.set key (streamTailCursor s key) }

/-- What `XREAD` answers: for each stream some entries behind its cursor, oldest first. -/
def response (s : EventLoop σ α) (count : String → ℕ) : List (String × List (StreamId × α)) :=
  (s.cursors.entries.map fun e => (e.1, ((s.streams e.1).after e.2).take (count e.1))).filter
    fun e => !e.2.isEmpty

variable (forward : σ → α → σ × Bool)

/-- One entry: the cursor moves first, then the call is made. The flag says it raised. -/
def handOver (s : EventLoop σ α) (key : String) (e : StreamId × α) : EventLoop σ α × Bool :=
  let (forwarder, raised) := forward s.forwarder e.2
  ({ s with
      cursors := s.cursors.set key e.1
      handed := s.handed ++ [(key, e)]
      forwarder }, raised)

def handBatch (s : EventLoop σ α) (key : String) : List (StreamId × α) → EventLoop σ α × Bool
  | [] => (s, false)
  | e :: rest =>
    match handOver forward s key e with
    | (s, true) => (s, true)
    | (s, false) => handBatch s key rest

/-- The whole response; what an exception leaves unread is read again later. -/
def handAll (s : EventLoop σ α) : List (String × List (StreamId × α)) → EventLoop σ α
  | [] => s
  | (key, batch) :: rest =>
    match handBatch forward s key batch with
    | (s, true) => s
    | (s, false) => handAll s rest

def handedOf (s : EventLoop σ α) (key : String) : List (StreamId × α) :=
  (s.handed.filter fun h => h.1 = key).map Prod.snd

def unread (s : EventLoop σ α) (key : String) : ℕ :=
  match s.cursors.get? key with
  | none => 0
  | some c => ((s.streams key).after c).length

end EventLoop

/-- Entries arrive, `discover` is a pass over the keys in Redis or a part of one, and
`poll` one round of the loop with the batch sizes `XREAD` happens to answer. -/
inductive EventLoopOp (α : Type) where
  | arrive (key : String) (id : StreamId) (entry : α)
  | discover (keys : List String)
  | poll (count : String → ℕ)

def eventLoopStep (forward : σ → α → σ × Bool) (skip : List String) (s : EventLoop σ α) :
    EventLoopOp α → EventLoop σ α
  | .arrive key id entry => s.arrive key id entry
  | .discover keys => (discoverEventStreams keys skip).foldl EventLoop.watch s
  | .poll count => s.handAll forward (s.response count)

end TinoHelm

import TinoHelm.Base.Machine
import TinoHelm.Spec.Commands

/-! The notifier and the Redis it shares with the CLI, as far as commands go: the
registry with its two writers, the commands accepted and not yet written, the control
streams that exist. -/

namespace TinoHelm
open Base

/-- An accepted command for one target; `position` is the place of the slash command in
the run. -/
structure Issued where
  position : ℕ
  interaction : Interaction
  target : String
deriving DecidableEq

def Issued.entry (w : Issued) : ControlEntry := entryFor w.interaction.command w.target

structure Notifier where
  registry : Registry := .empty
  controlKeys : List String := []
  inFlight : List Issued := []
  written : List Issued := []
  clock : ℕ := 0

inductive NotifierOp where
  | announces (entries : List Announce)
  | scan (keys : List String)
  | slash (i : Interaction)
  | xadd (n : ℕ)
  | cli (strategyId action : String) (reason : Option String)

namespace Notifier

def addKey (s : Notifier) (key : String) : Notifier :=
  { s with controlKeys := if key ∈ s.controlKeys then s.controlKeys else s.controlKeys ++ [key] }

/-- The keys of a scan that exist. A pass runs in a thread of its own, so what one step
takes in may be part of a pass, in any order. -/
def scanKeys (s : Notifier) (keys : List String) : List String :=
  keys.filter (· ∈ s.controlKeys)

def issue (s : Notifier) (ch : Channels) (i : Interaction) : Notifier :=
  { s with
    inFlight := s.inFlight ++ (targetsOf ch s.registry i).map fun target => ⟨s.clock, i, target⟩ }

/-- The thread of the `n`-th publish in flight gets to its `XADD`. -/
def xadd (s : Notifier) (n : ℕ) : Notifier :=
  match s.inFlight[n]? with
  | none => s
  | some w =>
    { s with inFlight := s.inFlight.eraseIdx n, written := s.written ++ [w] }.addKey w.entry.key

def perform (s : Notifier) (ch : Channels) : NotifierOp → Notifier
  | .announces entries => { s with registry := applyAnnounces s.registry entries }
  | .scan keys => { s with registry := applyFallbackScan (s.scanKeys keys) s.registry }
  | .slash i => s.issue ch i
  | .xadd n => s.xadd n
  | .cli strategyId action reason => s.addKey (publishCommand strategyId action reason).key

end Notifier

def notifierStep (ch : Channels) (s : Notifier) (op : NotifierOp) : Notifier :=
  { s.perform ch op with clock := s.clock + 1 }

def notifierAfter (ch : Channels) (ops : List NotifierOp) : Notifier :=
  run (notifierStep ch) {} ops

def announced (ops : List NotifierOp) : List Announce :=
  ops.flatMap fun
    | .announces entries => entries
    | _ => []

end TinoHelm

import TinoHelm.Spec.Registry

/-! The slash commands of `_build_discord_client` (`notifier/runner.py`): from an
interaction to the entries they put on control streams, or the text that rejects
them. `ts` of a command body is left out. -/

namespace TinoHelm
open Base

structure ControlEntry where
  key : String
  topic : String
  action : String
  reason : Option String
deriving DecidableEq, Repr

def commandTopicPrefix : String := "commands.tinohelm"

/-- `_publish`; an empty reason is left out of the body. -/
def publish (strategy action : String) (reason : Option String) : ControlEntry where
  key := controlStreamKey strategy
  topic := commandTopicPrefix ++ "." ++ strategy ++ "." ++ action
  action
  reason := reason.filter (· ≠ "")

/-- `_publish_command` of `cli.py`. -/
def publishCommand (strategyId action : String) (reason : Option String) : ControlEntry :=
  publish strategyId action reason

def channelMode (ch : Channels) (channelId : Option ℤ) : Option String :=
  if channelId = some ch.live then some "live"
  else if channelId = some ch.sandbox then some "sandbox"
  else if channelId = some ch.logging then some "logging"
  else none

def notRegistered : String := "this channel is not registered as sandbox, live, or logging"

/-- `_command`, up to the publish. -/
def command (ch : Channels) (registry : Registry) (channelId : Option ℤ)
    (strategy action : String) (reason : Option String) : Except String ControlEntry :=
  match channelMode ch channelId with
  | none => .error notRegistered
  | some mode =>
    match validateCommandChannel strategy mode registry with
    | .error exc => .error ("rejected: " ++ exc.message)
    | .ok () => .ok (publish strategy action reason)

/-- `_request_report`, up to the list of targets. -/
def requestTargets (ch : Channels) (registry : Registry) (channelId : Option ℤ)
    (strategy : Option String) : Except String (List String) :=
  match channelMode ch channelId with
  | none => .error notRegistered
  | some mode =>
    match strategy.filter (· ≠ "") with
    | some sid =>
      match validateCommandChannel sid mode registry with
      | .error exc => .error ("rejected: " ++ exc.message)
      | .ok () => .ok [sid]
    | none =>
      let targets := strategiesForChannel mode registry
      if targets.isEmpty then .error "no strategies known for this channel yet" else .ok targets

inductive LifecycleAction where
  | pause | resume | flatten | ping
deriving DecidableEq, Repr

def LifecycleAction.name : LifecycleAction → String
  | pause => "pause"
  | resume => "resume"
  | flatten => "flatten"
  | ping => "ping"

inductive ReportCommand where
  | positions | pnl | fills | orders
deriving DecidableEq, Repr

namespace ReportCommand

def action : ReportCommand → String
  | positions | pnl => "report"
  | fills => "fills"
  | orders => "orders"

def reportTopic : ReportCommand → String
  | positions | pnl => "tinohelm.report.positions"
  | fills => "tinohelm.report.fills"
  | orders => "tinohelm.report.orders"

end ReportCommand

inductive SlashCommand where
  | lifecycle (action : LifecycleAction) (strategy : String) (reason : Option String)
  | report (kind : ReportCommand) (strategy : Option String)
deriving DecidableEq, Repr

structure Interaction where
  channelId : Option ℤ
  command : SlashCommand
deriving DecidableEq, Repr

/-- The ids a command is published to, decided when it is validated or fanned out. -/
def targetsOf (ch : Channels) (registry : Registry) (i : Interaction) : List String :=
  match i.command with
  | .lifecycle action strategy reason =>
    match command ch registry i.channelId strategy action.name reason with
    | .ok _ => [strategy]
    | .error _ => []
  | .report _ strategy => ((requestTargets ch registry i.channelId strategy).toOption).getD []

def entryFor (c : SlashCommand) (target : String) : ControlEntry :=
  match c with
  | .lifecycle action _ reason => publish target action.name reason
  | .report kind _ => publish target kind.action none

theorem strategiesForChannel_nodup (mode : String) (registry : Registry) :
    (strategiesForChannel mode registry).Nodup := by
  unfold strategiesForChannel
  split_ifs
  · exact registry.nodup.sublist (List.filter_sublist.map _)
  · exact registry.nodup.sublist (List.filter_sublist.map _)
  · exact registry.keys_nodup

theorem requestTargets_nodup {ch : Channels} {registry : Registry} {channelId : Option ℤ}
    {strategy : Option String} {targets : List String}
    (h : requestTargets ch registry channelId strategy = .ok targets) : targets.Nodup := by
  unfold requestTargets at h
  cases hm : channelMode ch channelId with
  | none => simp [hm] at h
  | some mode =>
    simp only [hm] at h
    cases hs : strategy.filter (· ≠ "") with
    | some sid =>
      simp only [hs] at h
      split at h
      · cases h
      · cases h
        exact List.nodup_singleton sid
    | none =>
      simp only [hs] at h
      split_ifs at h
      cases h
      exact strategiesForChannel_nodup mode registry

end TinoHelm

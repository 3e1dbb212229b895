import TinoHelm.Base.Text
import TinoHelm.Spec.Tracker

/-! The gates between a decoded event and Discord (`notifier/runner.py`): the
topic allow-list, the deny-lists on the body's `type`, and the fill gate. -/

namespace TinoHelm
open Base

def forwardedTopicPrefixes : List String :=
  ["events.order.", "events.position.", "events.account.", "events.system.", "data.Signal",
    "tinohelm."]

def shouldForwardTopic (topic : String) : Bool :=
  forwardedTopicPrefixes.any fun p => startsWith topic p

def transientComponentStates : List String :=
  ["PRE_INITIALIZED", "READY", "INITIALIZED", "STARTING", "STOPPING", "RESUMING", "RESETTING",
    "DISPOSING", "DISPOSED", "DEGRADING", "FAULTING"]

def shouldForwardComponentState (state : String) : Bool := !transientComponentStates.contains state

/-- `True` unless `body` is a transient `ComponentStateChanged`. -/
def componentStatePasses (body : Value) : Bool :=
  if !(body.isDict && (body.get "type").isStr "ComponentStateChanged") then true
  else
    match body.get "state" with
    | .str state => shouldForwardComponentState state
    | _ => true

/-- A deny-list on the body's `type`; a `type` that cannot be hashed raises. -/
def typeNotIn (names : List String) (body : Value) : Except PyError Bool :=
  if body.isDict then ((body.get "type").inNames names).map (!·) else .ok true

def transientOrderEvents : List String :=
  ["OrderInitialized", "OrderSubmitted", "OrderAccepted", "OrderPendingUpdate",
    "OrderPendingCancel", "OrderReleased", "OrderEmulated"]

def shouldForwardOrderEvent (body : Value) : Except PyError Bool :=
  typeNotIn transientOrderEvents body

def silencedEventTypes : List String := ["PositionChanged", "AccountState"]

def shouldForwardEventType (body : Value) : Except PyError Bool :=
  typeNotIn silencedEventTypes body

/-- Suppress every partial fill but the completing one. Without a tracker, an
order id or a slot there is nothing to aggregate and the fill is forwarded. -/
def shouldForwardFill [FloatArith] (body : Value) (tracker : Option OrderProgressTracker) :
    Except PyError Bool :=
  if !(body.isDict && (body.get "type").isStr "OrderFilled") then .ok true
  else
    match tracker with
    | none => .ok true
    | some t =>
      let coid := body.get "client_order_id"
      if !coid.truthy then .ok true
      else (t.snapshot coid).map fun prog => prog.all OrderProgress.isComplete

theorem typeNotIn_str {names : List String} {body : Value} {s : String}
    (hb : body.isDict = true) (h : body.get "type" = .str s) :
    typeNotIn names body = .ok !names.contains s := by
  simp [typeNotIn, hb, h, Except.map]

end TinoHelm

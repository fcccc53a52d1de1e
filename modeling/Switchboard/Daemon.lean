import Switchboard.Pattern.Engine
import Switchboard.Plugins
import Switchboard.Hub.Client

namespace Switchboard

inductive ShutdownReason where
  | interrupted | terminated | requested
deriving DecidableEq

namespace ShutdownReason

def text : ShutdownReason → String
  | interrupted => "Ctrl-C signal received"
  | terminated => "Terminate signal received"
  | requested => "Shutdown requested"

end ShutdownReason

namespace Daemon

def readyEvent : String := "system.ready"

def shutdownEvent : String := "system.shutdown"

def announce (x : Exchange) : Routine Outcome := do
  let report ← x.fire readyEvent (.obj [])
  Routine.log .info
    s!"Daemon ready; {report.ran} {readyEvent} handlers ran, {report.failed} failed"
  return .returned report.toJson

def start (settings : CoreSettings) : Hub :=
  let (b, _) := Builder.addPlugins { settings }
  let s := b.build
  (s.begin (announce s.exchange)).2

def call (s : Hub) (method : String) (args : List Json) : Hub × Option Outcome :=
  let (task, s) := s.begin do return .ofResult (← s.exchange.call method args)
  (s, s.outcome? task)

def stop (s : Hub) (reason : ShutdownReason) : Hub :=
  let s := s.write .info s!"Shutting down: {reason.text}"
  let payload : Json := .ofFields [("reason", .str reason.text)]
  let (_, s) := s.begin do return .returned (← s.exchange.fire shutdownEvent payload).toJson
  let (s, result) := s.request .shutdown
  let pending : Except CallError Nat := result
  match pending with
  | .ok 0 | .error _ => s
  | .ok n => s.write .warn s!"{n} jobs were still pending at shutdown"

end Daemon

end Switchboard

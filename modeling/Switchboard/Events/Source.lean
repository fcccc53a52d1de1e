import Switchboard.Events.Subscription
import Switchboard.Reporting.Realtime

namespace Switchboard

inductive PlaylistItem where
  | emit (v : Json)
  | args
  | call (method : String) (args : List Json)
  | fail (text : String)
  | panic
  | silence

structure Playlist where
  items : List PlaylistItem
  args : Json
  position : Nat
  interval : Nat
  eventType : EventType

inductive EventSource where
  | realtime (r : Reporting.Realtime)
  | playlist (p : Playlist)

namespace EventSource

def interval : EventSource → Nat
  | realtime r => r.interval * 1000
  | playlist p => p.interval

def eventType : EventSource → EventType
  | realtime _ => .added
  | playlist p => p.eventType

end EventSource

structure PlaylistOptions where
  items : List PlaylistItem
  interval : Option Nat
  eventType : EventType

namespace PlaylistOptions

/-- The playlist for cleaned arguments, which may refuse the subscription. -/
def source (o : PlaylistOptions) (args : Json) : Except CallError EventSource :=
  match args.get? "refuse" with
  | some (.str text) => .error (.failed text)
  | _ =>
    let word? (key : String) : Option Nat := (args.get? key).bind Json.asWord?
    .ok (.playlist {
      items := o.items
      args
      position := (word? "start").getD 0
      interval := (word? "interval_ms").getD (o.interval.getD 1000)
      eventType := o.eventType })

end PlaylistOptions

end Switchboard

import Switchboard.Remote.Request
import Switchboard.Hub.Client

namespace Switchboard.Remote

inductive Feed where
  | jobs (receiver : Nat)
  | source (subscription outlet : Nat)

structure Stream where
  feed : Feed
  left : List Event := []
  closed : Bool := false

namespace Stream

def «open» (s : Hub) (r : StreamRequest) : Hub × Except CallError Stream :=
  if r.source = jobsCollection then
    let (s, receiver) := s.request .subscribe
    (s, receiver.map fun receiver => { feed := .jobs receiver })
  else
    match s.startSubscription r.source r.args with
    | (s, .error e) => (s, .error e)
    | (s, .ok subscribed) =>
      let (outlet, s) := s.number
      let s := s.setOutlet outlet {}
      let (_, s) := s.spawn (Exchange.runForward subscribed.subscription outlet)
      (s.settle, .ok { feed := .source subscribed.subscription outlet })

def pending (s : Hub) (feed : Feed) : List Event × Bool :=
  match feed with
  | .jobs receiver => ((s.jobEvents.takeAll receiver).1, !s.jobEvents.isClosed receiver)
  | .source _ outlet =>
    match s.outlet? outlet with
    | some out => (out.events, !out.ended)
    | none => ([], false)

def take (s : Hub) (stream : Stream) : Hub × Stream × List Event × Bool :=
  if stream.closed then (s, { stream with left := [] }, stream.left, false)
  else
    let (events, more) := pending s stream.feed
    let s := match stream.feed with
      | .jobs receiver => (s.takeJobEvents receiver).2
      | .source _ outlet =>
        match s.outlet? outlet with
        | some out => s.setOutlet outlet { out with events := [] }
        | none => s
    (s, stream, events, more)

def close (s : Hub) (stream : Stream) : Hub × Stream × Bool :=
  if stream.closed then (s, stream, false)
  else
    let (events, more) := pending s stream.feed
    let s := match stream.feed with
      | .jobs receiver => s.dropJobEvents receiver
      | .source subscription outlet =>
        let s := match s.outlet? outlet with
          | some out => s.setOutlet outlet { out with attended := false }
          | none => s
        (s.updateSubscription subscription id).settle
    (s, { stream with left := events, closed := true }, more)

end Stream

end Switchboard.Remote

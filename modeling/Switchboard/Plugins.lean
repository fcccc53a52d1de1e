import Switchboard.Calls.Dispatch
import Switchboard.Query.Run

namespace Switchboard

namespace Core

def ping : Method where
  name := "ping"
  body _ _ := Routine.done (Outcome.returned (.str "pong"))
  description := some "Check that the middleware answers calls."

def describeMethods : Routine Outcome := do
  let infos : List MethodInfo ← Routine.ask .methods
  return .returned (.ofFields (infos.map fun i => (i.name, .ofFields i.fields)))

def getMethods : Method where
  name := "get_methods"
  body _ _ := describeMethods
  description := some "Describe every public method and its parameters."

def queryJobs [PatternReader] (args : List Json) : Routine (Except CallError Json) :=
  let filters : List Json := match args.head? with
    | some (.arr filters) => filters
    | _ => []
  match queryOptionsOf ((args[1]?).getD .null) with
  | .error e => return .error e
  | .ok options => do
    let jobs : Except CallError (List JobSnapshot) ← Routine.ask (.ask .list)
    return jobs.bind fun jobs => queryRecords (jobs.map JobSnapshot.toJson) filters options

def getJobs [PatternReader] : Method where
  name := "get_jobs"
  accepts := [queryFiltersParam, queryOptionsParam]
  body _ args := (queryJobs args).outcome
  description := some "Query jobs like any other collection."

def jobId (args : List Json) : Nat := (args.head?.bind Json.asWord?).getD 0

def jobAbort : Method where
  name := "job_abort"
  accepts := [(Param.int "id").require.withValidator (.range (Double.ofInt? 1) none)]
  body _ args := (Exchange.abortJob (jobId args)).outcome
  description := some "Abort a waiting job, or a running one that allows it."

def describeSources : Routine Outcome := do
  let sources : List (String × Json) ← Routine.ask .sources
  return .returned (.ofFields sources)

def getEventSources : Method where
  name := "get_event_sources"
  body _ _ := describeSources

def methods [PatternReader] : List Method := [ping, getMethods, getJobs, jobAbort, getEventSources]

end Core

def realtimeEntry : SourceEntry where
  accepts := Reporting.Realtime.params
  source args := .ok (.realtime (Reporting.Realtime.ofArgs args))

def Builder.addPlugins [PatternReader] (b : Builder) : Builder.Registration :=
  match b.addService "core" Core.methods with
  | (b, none) => b.addEventSource Reporting.Realtime.sourceName realtimeEntry
  | (b, some e) => (b, some e)

end Switchboard

import Switchboard.Error
import Switchboard.Query.Options
import Switchboard.Reporting.Counters

namespace Switchboard.Reporting

inductive FileText where
  | absent
  | notUtf8
  | text (s : String)

namespace FileText

def read (path : String) : FileText → Except CallError String
  | text s => .ok s
  | absent => .error (.failed ("Reading " ++ path ++ ": No such file or directory (os error 2)"))
  | notUtf8 => .error (.failed ("Reading " ++ path ++ ": stream did not contain valid UTF-8"))

end FileText

structure Sample where
  stat : FileText
  meminfo : FileText

structure Realtime where
  interval : Nat
  statPath : String := "/proc/stat"
  meminfoPath : String := "/proc/meminfo"
  previous : Option CpuTable := none

inductive Sampled where
  | fields (fields : Json)
  | failed (e : CallError)
  | overflowed (o : Overflow)

namespace Realtime

def sourceName : String := "reporting.realtime"

def defaultInterval : Nat := 2

def params : Param :=
  .dict { name := "" } [
    ((Param.int "interval").withDefault (.nat defaultInterval)).withValidator
      (.range (Double.ofInt? defaultInterval) none)] false

def ofArgs (args : Json) : Realtime :=
  { interval := ((args.get? "interval").bind Json.asWord?).getD defaultInterval }

/-- Takes a sample. The state changes only if it succeeds. -/
def sample (r : Realtime) (s : Sample) : Sampled × Realtime :=
  match s.stat.read r.statPath with
  | .error e => (.failed e, r)
  | .ok stat =>
    match s.meminfo.read r.meminfoPath with
    | .error e => (.failed e, r)
    | .ok meminfo =>
      match memoryFigures meminfo with
      | .error o => (.overflowed o, r)
      | .ok memory =>
        match cpuTable stat with
        | .error o => (.overflowed o, r)
        | .ok table =>
          let cpu := match r.previous with
            | some before => [("cpu", cpuUsage before table)]
            | none => []
          (.fields (.ofFields (("memory", .obj memory) :: cpu)), { r with previous := some table })

end Realtime

end Switchboard.Reporting

import Switchboard.CommandLine
import Switchboard.Daemon
import Switchboard.SettingsText

namespace Switchboard.Program

def environment : IO (List (String × String)) :=
  ValueOption.all.filterMapM fun o => do
    return (← IO.getEnv o.env).map fun value => (o.env, value)

partial def readAll (input : IO.FS.Stream) (acc : ByteArray) : IO ByteArray := do
  let bytes ← input.read 65536
  if bytes.isEmpty then return acc else readAll input (acc ++ bytes)

def sourceOf (bytes : ByteArray) : SettingsSource :=
  match String.fromUTF8? bytes with
  | some s => .text s
  | none => .notUtf8

/-- What is left to say of a command line that ends everything, and the exit code. -/
def refusal (e : CommandLineError) : String × UInt32 :=
  match e with
  | .displayHelp | .displayVersion => (e.name, 0)
  | e => (e.name, 2)

def records (settings : CoreSettings) : List LogRecord :=
  (Daemon.stop (Daemon.start settings) .requested).log.filter (LogRecord.upTo .info)

def run (args : List String) : IO UInt32 := do
  match CommandLine.ofArgs args (← environment) with
  | .error e =>
    let (text, code) := refusal e
    IO.eprintln text
    return code
  | .ok line =>
    let source := sourceOf (← readAll (← IO.getStdin) ByteArray.empty)
    match SettingsFile.read line.path line.run source with
    | .error e =>
      IO.eprintln s!"Middleware daemon failed: {e.message}"
      return 1
    | .ok file =>
      for r in records file.coreSettings do
        IO.eprintln s!"{r.level.name} {r.text}"
      return 0

end Switchboard.Program

def main (args : List String) : IO UInt32 := Switchboard.Program.run args

import Switchboard.Settings
import Switchboard.Schema.Clean

namespace Switchboard

structure CommandLine where
  configPath : Option String := none
  run : RunOptions := {}
deriving DecidableEq

inductive CommandLineError where
  | unknownArgument
  | invalidValue
  | valueValidation
  | argumentConflict
  | tooManyValues
  | displayHelp
  | displayVersion
deriving DecidableEq

namespace CommandLineError

def name : CommandLineError → String
  | unknownArgument => "UnknownArgument"
  | invalidValue => "InvalidValue"
  | valueValidation => "ValueValidation"
  | argumentConflict => "ArgumentConflict"
  | tooManyValues => "TooManyValues"
  | displayHelp => "DisplayHelp"
  | displayVersion => "DisplayVersion"

end CommandLineError

inductive ValueOption where
  | configPath | rpcBindAddress | rpcEnabled | maxRetainedJobs | eventChannelCapacity
  | defaultLockTimeout
deriving DecidableEq

namespace ValueOption

def all : List ValueOption :=
  [configPath, rpcBindAddress, rpcEnabled, maxRetainedJobs, eventChannelCapacity,
    defaultLockTimeout]

def long : ValueOption → String
  | configPath => "config"
  | rpcBindAddress => "rpc-bind-address"
  | rpcEnabled => "rpc-enabled"
  | maxRetainedJobs => "max-retained-jobs"
  | eventChannelCapacity => "event-channel-capacity"
  | defaultLockTimeout => "default-lock-timeout"

def env : ValueOption → String
  | configPath => "MIDDLEWARED_CONFIG_PATH"
  | rpcBindAddress => "MIDDLEWARED_RPC_BIND_ADDRESS"
  | rpcEnabled => "MIDDLEWARED_RPC_ENABLED"
  | maxRetainedJobs => "MIDDLEWARED_MAX_RETAINED_JOBS"
  | eventChannelCapacity => "MIDDLEWARED_EVENT_CHANNEL_CAPACITY"
  | defaultLockTimeout => "MIDDLEWARED_DEFAULT_LOCK_TIMEOUT"

def word (s : String) : Except CommandLineError Nat :=
  let ds := match s.toList with
    | '+' :: ds => ds
    | ds => ds
  let n := decimalValue ds
  if ds.isEmpty || !ds.all Char.isDigit || Nat.pow 2 64 ≤ n then .error .valueValidation else .ok n

def bool : String → Except CommandLineError Bool
  | "true" => .ok true
  | "false" => .ok false
  | _ => .error .invalidValue

def address (s : String) : Except CommandLineError SocketAddress :=
  match SocketAddress.ofText? s with
  | some a => .ok a
  | none => .error .valueValidation

def set (o : ValueOption) (s : String) (c : CommandLine) : Except CommandLineError CommandLine :=
  match o with
  | configPath => if s.isEmpty then .error .invalidValue else .ok { c with configPath := some s }
  | rpcBindAddress =>
    (address s).map fun a => { c with run := { c.run with rpcBindAddress := some a } }
  | rpcEnabled => (bool s).map fun b => { c with run := { c.run with rpcEnabled := some b } }
  | maxRetainedJobs =>
    (word s).map fun n => { c with run := { c.run with maxRetainedJobs := some n } }
  | eventChannelCapacity =>
    (word s).map fun n => { c with run := { c.run with eventChannelCapacity := some n } }
  | defaultLockTimeout =>
    (word s).map fun n => { c with run := { c.run with defaultLockTimeout := some n } }

end ValueOption

namespace CommandLine

/-- What the arguments read so far say: the options set, and one that waits for its value or has
just been given it. -/
structure Progress where
  line : CommandLine := {}
  seen : List ValueOption := []
  pending : Option (ValueOption × Option String) := none

namespace Progress

def commit (p : Progress) (o : ValueOption) (value : Option String) :
    Except CommandLineError Progress :=
  match value with
  | none => .error .invalidValue
  | some s =>
    if o ∈ p.seen then .error .argumentConflict
    else (o.set s p.line).map fun line => ⟨line, o :: p.seen, none⟩

def settle (p : Progress) : Except CommandLineError Progress :=
  match p.pending with
  | none => .ok p
  | some (o, value) => p.commit o value

def option (p : Progress) (o : ValueOption) (value : Option String) :
    Except CommandLineError Progress := do
  let p ← p.settle
  match value with
  | some s => p.commit o (some s)
  | none => .ok { p with pending := some (o, none) }

def stop (p : Progress) (reason : CommandLineError) : Except CommandLineError Progress := do
  let _ ← p.settle
  .error reason

def long (p : Progress) (cs : List Char) : Except CommandLineError Progress :=
  let name := cs.takeWhile (· != '=')
  let value := (cs.drop name.length).tail?.map String.ofList
  let name := String.ofList name
  match ValueOption.all.find? fun o => o.long == name with
  | some o => p.option o value
  | none =>
    let flag (reason : CommandLineError) : Except CommandLineError Progress :=
      if value.isSome then .error .tooManyValues else p.stop reason
    match name with
    | "help" => flag .displayHelp
    | "version" => flag .displayVersion
    | _ => .error .unknownArgument

def short (p : Progress) (cs : List Char) : Except CommandLineError Progress :=
  match cs with
  | 'c' :: '=' :: rest => p.option .configPath (some (String.ofList rest))
  | 'c' :: rest => p.option .configPath (if rest.isEmpty then none else some (String.ofList rest))
  | 'h' :: _ => p.stop .displayHelp
  | 'V' :: _ => p.stop .displayVersion
  | _ => .error .unknownArgument

def plain (p : Progress) (s : String) : Except CommandLineError Progress :=
  match p.pending with
  | some (o, none) => .ok { p with pending := some (o, some s) }
  | _ => .error .unknownArgument

def push (p : Progress) (arg : String) : Except CommandLineError Progress :=
  match arg.toList with
  | '-' :: '-' :: cs => p.long cs
  | '-' :: c :: cs => p.short (c :: cs)
  | _ => p.plain arg

/-- Reads all arguments; after two hyphens alone there may be no more of them. -/
def pushAll (p : Progress) : List String → Except CommandLineError Progress
  | [] => p.settle
  | arg :: args =>
    if arg = "--" then if args.isEmpty then p.settle else .error .unknownArgument
    else do (← p.push arg).pushAll args

def fromEnv (env : List (String × String)) (p : Progress) (o : ValueOption) :
    Except CommandLineError Progress :=
  if o ∈ p.seen then .ok p
  else match env.lookup o.env with
    | some s => p.commit o (some s)
    | none => .ok p

end Progress

def ofArgs (args : List String) (env : List (String × String)) :
    Except CommandLineError CommandLine := do
  let p ← Progress.pushAll {} args
  let p ← ValueOption.all.foldlM (Progress.fromEnv env) p
  return p.line

def defaultConfigPath : String := "/etc/middlewared.toml"

def path (c : CommandLine) : String := c.configPath.getD defaultConfigPath

def toJson (c : CommandLine) : Json :=
  .ofFields [("config_path", .str c.path),
    ("rpc_bind_address", .ofString? (c.run.rpcBindAddress.map SocketAddress.text)),
    ("rpc_enabled", match c.run.rpcEnabled with
      | some b => .bool b
      | none => .null),
    ("max_retained_jobs", .ofNat? c.run.maxRetainedJobs),
    ("event_channel_capacity", .ofNat? c.run.eventChannelCapacity),
    ("default_lock_timeout", .ofNat? c.run.defaultLockTimeout)]

end CommandLine

end Switchboard

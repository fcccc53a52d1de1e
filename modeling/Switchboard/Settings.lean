import Switchboard.Decode

namespace Switchboard

structure CoreSettings where
  maxRetainedJobs : Nat := 1000
  eventChannelCapacity : Nat := 32
  defaultLockTimeout : Option Nat := none
deriving DecidableEq

structure RpcSettings where
  bindAddress : SocketAddress := ⟨.v4 [127, 0, 0, 1], 0, 6000⟩
  enabled : Bool := true
deriving DecidableEq

structure CoreSection where
  maxRetainedJobs : Option Nat := none
  eventChannelCapacity : Option Nat := none
  defaultLockTimeout : Option Nat := none
deriving DecidableEq

structure RpcSection where
  bindAddress : Option SocketAddress := none
  enabled : Option Bool := none
deriving DecidableEq

structure SettingsFile where
  core : Option CoreSection := none
  rpc : Option RpcSection := none
deriving DecidableEq

structure RunOptions where
  rpcBindAddress : Option SocketAddress := none
  rpcEnabled : Option Bool := none
  maxRetainedJobs : Option Nat := none
  eventChannelCapacity : Option Nat := none
  defaultLockTimeout : Option Nat := none
deriving DecidableEq

namespace CoreSettings

def layout : Decode.Layout CoreSettings where
  name := "CoreSettings"
  sparse := true
  fields := [
    ("max_retained_jobs", fun s v => return { s with maxRetainedJobs := ← Decode.count v }),
    ("event_channel_capacity",
      fun s v => return { s with eventChannelCapacity := ← Decode.count v }),
    ("default_lock_timeout",
      fun s v => return { s with defaultLockTimeout := ← Decode.option (Decode.count) v })]

def ofJson (v : Json) : Decode.Result CoreSettings := Decode.record layout {} v

def toJson (s : CoreSettings) : Json :=
  .ofFields [("max_retained_jobs", .nat s.maxRetainedJobs),
    ("event_channel_capacity", .nat s.eventChannelCapacity),
    ("default_lock_timeout", .ofNat? s.defaultLockTimeout)]

end CoreSettings

namespace RpcSettings

def layout : Decode.Layout RpcSettings where
  name := "RpcSettings"
  sparse := true
  fields := [
    ("bind_address", fun s v => return { s with bindAddress := ← Decode.socketAddress v }),
    ("enabled", fun s v => return { s with enabled := ← Decode.bool v })]

def ofJson (v : Json) : Decode.Result RpcSettings := Decode.record layout {} v

def toJson (s : RpcSettings) : Json :=
  .ofFields [("bind_address", .str s.bindAddress.text), ("enabled", .bool s.enabled)]

end RpcSettings

namespace CoreSection

def layout : Decode.Layout CoreSection where
  name := "CoreSection"
  sparse := false
  fields := [
    ("max_retained_jobs",
      fun s v => return { s with maxRetainedJobs := ← Decode.option (Decode.count) v }),
    ("event_channel_capacity",
      fun s v => return { s with eventChannelCapacity := ← Decode.option (Decode.count) v }),
    ("default_lock_timeout",
      fun s v => return { s with defaultLockTimeout := ← Decode.option (Decode.count) v })]

def ofJson (v : Json) : Decode.Result CoreSection := Decode.record layout {} v

def settings (s : CoreSection) : CoreSettings where
  maxRetainedJobs := s.maxRetainedJobs.getD ({} : CoreSettings).maxRetainedJobs
  eventChannelCapacity := s.eventChannelCapacity.getD ({} : CoreSettings).eventChannelCapacity
  defaultLockTimeout := s.defaultLockTimeout

/-- The section with the command line before it and the defaults behind it. -/
def override (options : RunOptions) (s : CoreSection) : CoreSection where
  maxRetainedJobs := some ((options.maxRetainedJobs.or s.maxRetainedJobs).getD
    ({} : CoreSettings).maxRetainedJobs)
  eventChannelCapacity := some ((options.eventChannelCapacity.or s.eventChannelCapacity).getD
    ({} : CoreSettings).eventChannelCapacity)
  defaultLockTimeout := options.defaultLockTimeout.or s.defaultLockTimeout

def toJson (s : CoreSection) : Json :=
  .ofFields [("max_retained_jobs", .ofNat? s.maxRetainedJobs),
    ("event_channel_capacity", .ofNat? s.eventChannelCapacity),
    ("default_lock_timeout", .ofNat? s.defaultLockTimeout)]

end CoreSection

namespace RpcSection

def layout : Decode.Layout RpcSection where
  name := "RpcSection"
  sparse := false
  fields := [
    ("bind_address",
      fun s v => return { s with bindAddress := ← Decode.option Decode.socketAddress v }),
    ("enabled", fun s v => return { s with enabled := ← Decode.option Decode.bool v })]

def ofJson (v : Json) : Decode.Result RpcSection := Decode.record layout {} v

def settings (s : RpcSection) : RpcSettings where
  bindAddress := s.bindAddress.getD ({} : RpcSettings).bindAddress
  enabled := s.enabled.getD ({} : RpcSettings).enabled

def override (options : RunOptions) (s : RpcSection) : RpcSection where
  bindAddress := some ((options.rpcBindAddress.or s.bindAddress).getD
    ({} : RpcSettings).bindAddress)
  enabled := some ((options.rpcEnabled.or s.enabled).getD ({} : RpcSettings).enabled)

def toJson (s : RpcSection) : Json :=
  .ofFields [("bind_address", .ofString? (s.bindAddress.map SocketAddress.text)),
    ("enabled", match s.enabled with
      | some b => .bool b
      | none => .null)]

end RpcSection

namespace SettingsFile

def layout : Decode.Layout SettingsFile where
  name := "SettingsFile"
  sparse := false
  fields := [
    ("middleware", fun s v => return { s with core := ← Decode.option CoreSection.ofJson v }),
    ("rpc", fun s v => return { s with rpc := ← Decode.option RpcSection.ofJson v })]

def ofJson (v : Json) : Decode.Result SettingsFile := Decode.record layout {} v

def coreSettings (f : SettingsFile) : CoreSettings := (f.core.getD {}).settings

def rpcSettings (f : SettingsFile) : RpcSettings := (f.rpc.getD {}).settings

def override (options : RunOptions) (f : SettingsFile) : SettingsFile where
  core := some ((f.core.getD {}).override options)
  rpc := some ((f.rpc.getD {}).override options)

def toJson (f : SettingsFile) : Json :=
  .ofFields [("middleware", .ofOption (f.core.map CoreSection.toJson)),
    ("rpc", .ofOption (f.rpc.map RpcSection.toJson))]

end SettingsFile

end Switchboard

import Switchboard.Quoted

namespace Switchboard

inductive LogLevel where
  | error | warn | info | debug | trace
deriving DecidableEq

namespace LogLevel

def rank : LogLevel → Nat
  | error => 0
  | warn => 1
  | info => 2
  | debug => 3
  | trace => 4

def name : LogLevel → String
  | error => "ERROR"
  | warn => "WARN"
  | info => "INFO"
  | debug => "DEBUG"
  | trace => "TRACE"

def all : List LogLevel := [error, warn, info, debug, trace]

end LogLevel

structure LogRecord where
  level : LogLevel
  text : String
deriving DecidableEq

namespace LogRecord

def upTo (level : LogLevel) (r : LogRecord) : Bool := r.level.rank ≤ level.rank

def ofFailure (level : LogLevel) (words failure : String) : LogRecord :=
  ⟨level, if words.isEmpty then quoted failure else words ++ ": " ++ quoted failure⟩

end LogRecord

def tapFailure {α : Type} (level : LogLevel) (words : String) (result : Except String α) :
    Except String α × List LogRecord :=
  match result with
  | .ok a => (.ok a, [])
  | .error e => (.error e, [LogRecord.ofFailure level words e])

end Switchboard

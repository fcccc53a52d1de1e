namespace Switchboard

inductive JobState where
  | waiting | running | success | failed | aborted
deriving DecidableEq

namespace JobState

def name : JobState → String
  | waiting => "WAITING"
  | running => "RUNNING"
  | success => "SUCCESS"
  | failed => "FAILED"
  | aborted => "ABORTED"

def all : List JobState := [waiting, running, success, failed, aborted]

def isTerminal : JobState → Bool
  | success | failed | aborted => true
  | waiting | running => false

/-- States only move forward; a waiting job may end without having run. -/
def canBecome : JobState → JobState → Bool
  | waiting, running | waiting, failed | waiting, aborted => true
  | running, success | running, failed | running, aborted => true
  | _, _ => false

def logName : JobState → String
  | waiting => "Waiting"
  | running => "Running"
  | success => "Success"
  | failed => "Failed"
  | aborted => "Aborted"

end JobState

end Switchboard

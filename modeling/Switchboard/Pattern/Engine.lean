import Switchboard.Pattern.Reader
import Switchboard.PatternReader

namespace Switchboard

instance : CoeFun Pattern fun _ => String → Bool := ⟨Pattern.isMatch⟩

/-- The engine with which the daemon runs. -/
instance : PatternReader where
  read source := do
    let pattern ← Pattern.ofText source
    return pattern

end Switchboard

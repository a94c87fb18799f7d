import Mathlib.Data.List.Basic
import PageLoads.Proofs.Except
import PageLoads.Proofs.Traffic.Sums

namespace PageLoads.Traffic

variable {cutoff : Binary64} {reports : List Report}

end PageLoads.Traffic

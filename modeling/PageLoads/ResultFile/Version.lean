
namespace PageLoads.ResultFile

/-- Rises whenever the layout changes. -/
def version : Nat :=
  9

end PageLoads.ResultFile

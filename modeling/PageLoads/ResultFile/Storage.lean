import PageLoads.ResultFile.Layout
import PageLoads.Store.Basic

namespace PageLoads.ResultFile

def save (store : Store) (path : String) (trial : Trial) : Except Failure Store :=
  (store.write path (File.compress (encode trial))).mapError fun fault =>
    (Failure.ofFault (.io fault)).during (.creatingResultFile path)

def load (store : Store) (path : String) : Except Failure Trial := do
  let content ← (store.openCompressed path).mapError fun fault =>
    (Failure.ofFault (.io fault)).during (.openingResultFile path)
  (decode path content).mapError fun cause => ⟨[.readingResultFile path], cause⟩

end PageLoads.ResultFile

import PageLoads.Text.Utf8

namespace PageLoads.Text

def replacement : Char :=
  '\uFFFD'

/-- The characters of the bytes; `skip` counts the bytes that belong to a sequence already shown. A sequence that
breaks off is replaced as far as it goes, and what follows is read anew. -/
def lossyFrom (skip : Nat) : Bytes → List Char
  | [] => []
  | b :: bytes =>
    if 0 < skip then lossyFrom (skip - 1) bytes
    else
      match continuationRanges b with
      | none => replacement :: lossyFrom 0 bytes
      | some ranges =>
        match sequenceFault 0 1 ranges bytes with
        | none =>
          ((decode? (b :: bytes.take ranges.length)).elim [] String.toList) ++ lossyFrom ranges.length bytes
        | some (.invalid length _) => replacement :: lossyFrom (length - 1) bytes
        | some (.incomplete _) => [replacement]

def lossy (bytes : Bytes) : String :=
  String.ofList (lossyFrom 0 bytes)

end PageLoads.Text


namespace PageLoads.Text

def hasStem (stem text : String) : Bool :=
  stem.toList.isPrefixOf text.toList

theorem hasStem_iff {stem text : String} : hasStem stem text = true ↔ stem.toList <+: text.toList :=
  List.isPrefixOf_iff_prefix

/-- Characters hold others, in a row, somewhere. -/
def holds (part : List Char) : List Char → Bool
  | [] => part.isEmpty
  | c :: rest => part.isPrefixOf (c :: rest) || holds part rest

end PageLoads.Text

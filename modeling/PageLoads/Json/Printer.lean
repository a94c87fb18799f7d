import PageLoads.Json.Value

namespace PageLoads.Json

def hexDigit (n : Nat) : Char :=
  Nat.digitChar n

def escaped (c : Char) : List Char :=
  if c = '"' then ['\\', '"']
  else if c = '\\' then ['\\', '\\']
  else if c = '\n' then ['\\', 'n']
  else if c = '\t' then ['\\', 't']
  else if c = '\r' then ['\\', 'r']
  else if c = '\x08' then ['\\', 'b']
  else if c = '\x0c' then ['\\', 'f']
  else if c.toNat < 0x20 then ['\\', 'u', '0', '0', hexDigit (c.toNat / 16), hexDigit (c.toNat % 16)]
  else [c]

def quoted (text : String) : List Char :=
  '"' :: text.toList.flatMap escaped ++ ['"']

def scalar : Json → List Char
  | .null => "null".toList
  | .bool true => "true".toList
  | .bool false => "false".toList
  | .integer n => (toString n).toList
  | .double x => x.json.toList
  | .text s => quoted s
  | .array _ => ['[', ']']
  | .object _ => ['\x7b', '\x7d']

mutual

def compact : Json → List Char
  | .array items => '[' :: compactItems items ++ [']']
  | .object entries => '\x7b' :: compactEntries entries ++ ['\x7d']
  | value => scalar value

def compactItems : List Json → List Char
  | [] => []
  | [item] => compact item
  | item :: items => compact item ++ ',' :: compactItems items

def compactEntries : List (String × Json) → List Char
  | [] => []
  | [(key, value)] => quoted key ++ ':' :: compact value
  | (key, value) :: entries => quoted key ++ ':' :: compact value ++ ',' :: compactEntries entries

end

def newLine (level : Nat) : List Char :=
  '\n' :: List.replicate (2 * level) ' '

mutual

/-- The value over several lines; the level is that of the line on which it begins. -/
def pretty (level : Nat) : Json → List Char
  | .array (item :: items) => '[' :: prettyItems (level + 1) (item :: items) ++ newLine level ++ [']']
  | .object (entry :: entries) =>
    '\x7b' :: prettyEntries (level + 1) (entry :: entries) ++ newLine level ++ ['\x7d']
  | value => scalar value

def prettyItems (level : Nat) : List Json → List Char
  | [] => []
  | [item] => newLine level ++ pretty level item
  | item :: items => newLine level ++ pretty level item ++ ',' :: prettyItems level items

def prettyEntries (level : Nat) : List (String × Json) → List Char
  | [] => []
  | [(key, value)] => newLine level ++ quoted key ++ ':' :: ' ' :: pretty level value
  | (key, value) :: entries =>
    newLine level ++ quoted key ++ ':' :: ' ' :: pretty level value ++ ',' :: prettyEntries level entries

end

end PageLoads.Json

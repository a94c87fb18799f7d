
namespace PageLoads

inductive YamlNode where
  | scalar (plain : Bool) (text : String)
  | sequence (items : List YamlNode)
  | mapping (entries : List (YamlNode × YamlNode))
  deriving Inhabited

namespace YamlNode

def blank : YamlNode :=
  .scalar true ""

def isScalar : YamlNode → Bool
  | .scalar .. => true
  | _ => false

def text? : YamlNode → Option String
  | .scalar _ text => some text
  | _ => none

def isNothing : YamlNode → Bool
  | .scalar true text => ["", "~", "null", "Null", "NULL"].contains text
  | _ => false

def valuesOf (entries : List (YamlNode × YamlNode)) (key : String) : List YamlNode :=
  (entries.filter fun entry => entry.1.text? = some key).map Prod.snd

end YamlNode

end PageLoads

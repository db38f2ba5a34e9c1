import PipelineAudit.Yaml.Error

/-!
# Nodes

The tree of a YAML document before its scalars are given values. A node that is referred to by an
alias occurs in several places; its number tells that it is one node. Numbers grow from the leaves
to the root, so a node's number is greater than those of the nodes in it.
-/

namespace PipelineAudit.Yaml

/-- What all nodes have: a number, a tag and the place where they start. -/
structure NodeInfo where
  id : Nat
  tag : String
  start : Mark
  deriving DecidableEq, Repr, Inhabited

/-- A node of a document. -/
inductive Node where
  | scalar (info : NodeInfo) (text : String)
  | sequence (info : NodeInfo) (items : List Node)
  | mapping (info : NodeInfo) (entries : List (Node × Node))
  deriving Repr, Inhabited

namespace Node

/-- What all nodes have. -/
def info : Node → NodeInfo
  | scalar i _ => i
  | sequence i _ => i
  | mapping i _ => i

/-- The number of a node. -/
def id (n : Node) : Nat := n.info.id

/-- The tag of a node. -/
def tag (n : Node) : String := n.info.tag

/-- Where a node starts. -/
def start (n : Node) : Mark := n.info.start

/-- The kind of a node. -/
def kind : Node → NodeKind
  | scalar _ _ => .scalar
  | sequence _ _ => .sequence
  | mapping _ _ => .mapping

end Node

namespace Tag

/-- The head of the standard tags. -/
def standard (name : String) : String := "tag:yaml.org,2002:" ++ name

/-- The tag of texts. -/
def str : String := standard "str"
/-- The tag of sequences. -/
def seq : String := standard "seq"
/-- The tag of mappings. -/
def map : String := standard "map"
/-- The tag of nothing. -/
def null : String := standard "null"
/-- The tag of truth values. -/
def bool : String := standard "bool"
/-- The tag of integers. -/
def int : String := standard "int"
/-- The tag of floating-point numbers. -/
def float : String := standard "float"
/-- The tag of bytes written in base 64. -/
def binary : String := standard "binary"
/-- The tag of dates and times. -/
def timestamp : String := standard "timestamp"
/-- The tag of ordered maps. -/
def omap : String := standard "omap"
/-- The tag of lists of pairs. -/
def pairs : String := standard "pairs"
/-- The tag of sets. -/
def set : String := standard "set"
/-- The tag of the key `<<`, whose value is merged into the mapping. -/
def merge : String := standard "merge"
/-- The tag of the key `=`. -/
def value : String := standard "value"
/-- The tag of an indicator that stands alone. -/
def yaml : String := standard "yaml"

end Tag

end PipelineAudit.Yaml

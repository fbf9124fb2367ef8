import BehaviorTree.Graph.NodeType
import BehaviorTree.Tree.Hierarchy

/-!
Exported trees. A forest is written as an XML document with one element per node, indented by two spaces per depth, and a list
of the custom node types. Five characters are written as entities.
-/

set_option autoImplicit false

namespace BehaviorTree.Xml

def replaceChar (c : Char) (by_ : List Char) (cs : List Char) : List Char :=
  cs.flatMap fun d => if d = c then by_ else [d]

/-- The characters that stand for entities, in the order in which they are replaced. -/
def entities : List (Char × List Char) :=
  [('&', "&amp;".toList), ('>', "&gt;".toList), ('<', "&lt;".toList), ('"', "&quot;".toList), ('\'', "&#039;".toList)]

def escapeChars (cs : List Char) : List Char :=
  entities.foldl (fun cs e => replaceChar e.1 e.2 cs) cs

def escape (s : String) : String := String.ofList (escapeChars s.toList)

/-- The text of a property: truth values in lower case, whole floats without a point. -/
def formatValue : Value → String
  | .bool b => if b then "true" else "false"
  | .float x =>
    if Decimal.isWhole x then
      match Decimal.truncateFloat x with
      | .ok i => Value.intText i
      | .error _ => Value.floatText x
    else Value.floatText x
  | v => v.written

def escapeValue : Value → String
  | .null => ""
  | v => escape (formatValue v)

/-- The properties that are written: those that hold, but none called `name`. -/
def keptProperties (n : Node) : Table Value :=
  n.properties.filter fun p => p.2.isTruthy && p.1 ≠ "name"

def attributeText (key value : String) : String := " " ++ key ++ "=\"" ++ value ++ "\""

def attributes (n : Node) : String :=
  attributeText "name" (escape n.name) ++
    String.join ((keptProperties n).map fun p => attributeText (escape p.1) (escapeValue p.2))

def spaces (n : Nat) : String := String.ofList (List.replicate n ' ')

mutual

/-- The lines of a tree from an indentation on; a node without children is one empty element. -/
def element (indent : Nat) : Tree → String
  | .branch n [] => spaces indent ++ "<" ++ escape n.type ++ attributes n ++ "/>\n"
  | .branch n (c :: cs) =>
    spaces indent ++ "<" ++ escape n.type ++ attributes n ++ ">\n" ++ elements (indent + 2) (c :: cs)
      ++ spaces indent ++ "</" ++ escape n.type ++ ">\n"

def elements (indent : Nat) : List Tree → String
  | [] => ""
  | t :: r => element indent t ++ elements indent r

end

def treeElement (t : Tree) : String :=
  "  <BehaviorTree ID=\"" ++ escape t.node.name ++ "\">\n" ++ element 4 t ++ "  </BehaviorTree>\n"

def typeElement (t : NodeType) : String :=
  "    <Node ID=\"" ++ escape t.type ++ "\" NodeType=\"" ++ NodeType.categoryKeyword t.category ++ "\"/>\n"

def typeList (types : List NodeType) : String :=
  if types.isEmpty then ""
  else "  <TreeNodesModel>\n" ++ String.join (types.map typeElement) ++ "  </TreeNodesModel>\n"

def document (forest : List Tree) (types : List NodeType) (version : String) : String :=
  let opening := "<root BTCPP_format=\"" ++ escape version ++ "\">\n"
  if forest.isEmpty then opening ++ "  <!-- no valid tree structure found -->\n</root>"
  else
    "<?xml version=\"1.0\"?>\n" ++ opening ++ String.join (forest.map treeElement) ++ typeList types ++ "</root>"

end BehaviorTree.Xml

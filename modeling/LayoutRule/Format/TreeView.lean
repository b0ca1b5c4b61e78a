import LayoutRule.Tree.Node

/-! # Tree views

One line per node, in preorder. A line begins with a pair of characters for each node around its own, a bar
if that node has a later sibling, and then a connector, a corner for the last of its siblings. -/

namespace LayoutRule

namespace TreeView

/-- Cuts a label to thirty characters and says so. -/
def truncate (cs : List Char) : List Char :=
  if 30 < cs.length then cs.take 30 ++ ['.', '.', '.'] else cs

def connector (last : Bool) : List Char :=
  if last then ['└', '─'] else ['├', '─']

/-- The pair that stands for a node in the lines of the nodes under it. -/
def guide (last : Bool) : List Char :=
  if last then [' ', ' '] else ['│', ' ']

def typeName : Node → List Char
  | .statement _ _ => ['s', 't', 'm', 't']
  | .block _ => ['b', 'l', 'o', 'c', 'k']

/-- The line of a node behind the guides of the nodes around it. -/
def line (guides : List Char) (last : Bool) (n : Node) : List Char :=
  guides ++ connector last ++ [' '] ++ typeName n ++ [':', ' '] ++ truncate n.label.toList

mutual

/-- The lines of a node and of the nodes under it. -/
def nodeLines (guides : List Char) (last : Bool) : Node → List (List Char)
  | .statement tokens body =>
      line guides last (.statement tokens body) :: forestLines (guides ++ guide last) body
  | .block children =>
      line guides last (.block children) :: forestLines (guides ++ guide last) children

/-- The lines of siblings. -/
def forestLines (guides : List Char) : List Node → List (List Char)
  | [] => []
  | n :: ns => nodeLines guides ns.isEmpty n ++ forestLines guides ns

end

end TreeView

/-- The view of a forest, each line with its line feed. -/
def treeView (nodes : List Node) : String :=
  String.ofList ((TreeView.forestLines [] nodes).flatMap (· ++ ['\n']))

end LayoutRule

import LayoutRule.Json.Printer
import LayoutRule.Tree.Node

/-! # JSON documents of tokens and trees -/

namespace LayoutRule

def Span.toJson (s : Span) : Json :=
  .object [("start", .nat s.start), ("end", .nat s.stop)]

def Token.toJson (t : Token) : Json :=
  .object [("kind", .string t.kind.tag), ("text", .string t.text), ("line", .nat t.line),
    ("column", .nat t.column), ("span", t.span.toJson)]

mutual

def Node.toJson : Node → Json
  | .statement tokens body =>
      .object [("Statement", .object [("tokens", .array (tokens.map Token.toJson)),
        ("body", .array (Node.listToJson body))])]
  | .block children => .object [("Block", .array (Node.listToJson children))]

def Node.listToJson : List Node → List Json
  | [] => []
  | n :: ns => n.toJson :: Node.listToJson ns

end

/-- A token list as one JSON array. -/
def tokensDocument (tokens : List Token) : Json :=
  .array (tokens.map Token.toJson)

/-- A forest as one JSON array. -/
def forestDocument (nodes : List Node) : Json :=
  .array (Node.listToJson nodes)

end LayoutRule

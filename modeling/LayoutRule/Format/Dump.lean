import LayoutRule.Text.Padded
import LayoutRule.Token.Basic

/-! # Token dumps

One line per token: the quoted text, the code of the kind, the line and the column, each at a fixed width. -/

namespace LayoutRule

namespace Token

/-- The dump line of a token, without a line feed. -/
def dumpChars (t : Token) : List Char :=
  Text.padRight 15 (Text.quote t.text.toList) ++ "  type=".toList ++ Text.column3 t.kind.code ++
    "  line=".toList ++ Text.column3 t.line ++ "  col=".toList ++ Text.column3 t.column

def dumpLine (t : Token) : String :=
  String.ofList t.dumpChars

end Token

/-- The dump lines of a token list, each with its line feed. -/
def dump (tokens : List Token) : String :=
  String.ofList (tokens.flatMap fun t => t.dumpChars ++ ['\n'])

end LayoutRule

import PlatformGame.Grammar.Label
import PlatformGame.Source.Token

/-! # Parse trees

Trees made by reading a text know the span of each node, from its first token to its last, layout
between them and dropped keywords included. Trees made by hand have no spans and may have leaves of
any kind. -/

namespace PlatformGame.Parse

open Grammar Source

inductive Tree
  | node (label : Label) (span : Option Span) (children : List Tree)
  | leaf (kind : String) (text : String) (span : Option Span)

namespace Tree

def kindOf : Terminal → String
  | .name => "NAME"
  | .string => "STRING"
  | .number => "NUMBER"
  | .color => "COLOR"
  | .endOfInput => "END"
  | .keyword _ => "WORD"

def ofToken (t : Token) : Tree := leaf (kindOf t.terminal) t.text (some t.span)

end Tree

end PlatformGame.Parse

/-! # Ordered lists of texts

Texts are ordered by their characters' code points. -/

namespace PlatformGame.Text

/-- Inserts a text into an ordered list that does not have it yet. -/
def insertText (s : String) : List String → List String
  | [] => [s]
  | t :: ts => if s < t then s :: t :: ts else if s = t then t :: ts else t :: insertText s ts

/-- The texts in order, each once. -/
def sortTexts (ss : List String) : List String := ss.foldr insertText []

end PlatformGame.Text

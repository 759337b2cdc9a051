/-! # Text inside a page

`scriptLiteral` writes a text as a single-quoted literal of the page's program, `escapeHtml` writes
it where the page has text or a quoted attribute. A literal never holds the two characters that
start a closing tag: a backslash is put between them, which the program's language ignores. -/

namespace PlatformGame.Text

def escapeScriptChar (c : Char) : List Char :=
  if c = '\\' then ['\\', '\\']
  else if c = '\'' then ['\\', '\'']
  else if c = '\n' then ['\\', 'n']
  else if c = '\r' then ['\\', 'r']
  else if c = '\t' then ['\\', 't']
  else [c]

/-- Puts a backslash between a less-than sign and a slash. -/
def splitTags : List Char → List Char
  | [] => []
  | '<' :: '/' :: cs => '<' :: '\\' :: '/' :: splitTags cs
  | c :: cs => c :: splitTags cs

def scriptLiteral (s : String) : String :=
  String.ofList ('\'' :: splitTags (s.toList.flatMap escapeScriptChar) ++ ['\''])

def escapeHtmlChar (c : Char) : List Char :=
  if c = '&' then "&amp;".toList
  else if c = '<' then "&lt;".toList
  else if c = '>' then "&gt;".toList
  else if c = '"' then "&quot;".toList
  else if c = '\'' then "&#x27;".toList
  else [c]

def escapeHtml (s : String) : String := String.ofList (s.toList.flatMap escapeHtmlChar)

end PlatformGame.Text

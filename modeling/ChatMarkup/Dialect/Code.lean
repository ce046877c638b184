import ChatMarkup.Dialect.Grammar

/-!
# Code spans, code fences and links

The delimited pieces of a MarkdownV2 message whose inside is escaped by a grammar of its own.
-/

namespace ChatMarkup

/-- A span of code on one line. -/
def codeSpan (code : String) : String :=
  "`" ++ Grammar.code.escape code ++ "`"

/-- A block of code. The language follows the opening fence, and nothing does when there is none. -/
def codeFence (language : Option String) (code : String) : String :=
  "```" ++ Grammar.text.escape (language.getD "") ++ "\n" ++ Grammar.code.escape code ++ "\n```"

/-- A link whose label is markup already. -/
def linkTo (label url : String) : String :=
  "[" ++ label ++ "](" ++ Grammar.url.escape url ++ ")"

end ChatMarkup

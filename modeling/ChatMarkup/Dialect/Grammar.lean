/-!
# Escaping

MarkdownV2 reserves other characters in plain text than inside code and inside a link destination. A
reserved character is written with a backslash before it, and every other character stands for
itself.

Results:
* `escape_append`: texts can be escaped one after the other.
* `backslash_mem_reserved`: every grammar reserves the backslash itself, so that what is written can
  be read.
-/

namespace ChatMarkup

/-- The three places of a MarkdownV2 message with an escaping of their own. -/
inductive Grammar
  /-- Plain text. -/
  | text
  /-- The inside of a code span or of a code fence. -/
  | code
  /-- A link destination, between its parentheses. -/
  | url
deriving DecidableEq, Repr

namespace Grammar

/-- The characters that need a backslash before them. -/
def reserved : Grammar → List Char
  | text =>
    ['_', '*', '[', ']', '(', ')', '~', '\x60', '>', '#', '+', '-', '=', '|', '\x7b', '\x7d', '.',
      '!', '\\']
  | code => ['\x60', '\\']
  | url => ['(', ')', '\\']

theorem backslash_mem_reserved (g : Grammar) : '\\' ∈ g.reserved := by
  cases g <;> decide

/-- How one character is written. -/
def escapeChar (g : Grammar) (c : Char) : List Char :=
  if c ∈ g.reserved then ['\\', c] else [c]

/-- A text with a backslash before each of its reserved characters. -/
def escape (g : Grammar) (s : String) : String :=
  String.ofList (s.toList.flatMap g.escapeChar)

@[simp] theorem toList_escape (g : Grammar) (s : String) :
    (g.escape s).toList = s.toList.flatMap g.escapeChar := by
  simp [escape]

@[simp] theorem escape_append (g : Grammar) (s t : String) :
    g.escape (s ++ t) = g.escape s ++ g.escape t := by
  simp [escape]

end Grammar

end ChatMarkup

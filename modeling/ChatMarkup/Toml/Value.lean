/-!
# Values of TOML

What a TOML text holds. Moments keep the text they were written as.
-/

namespace ChatMarkup.Toml

/-- A value of TOML. -/
inductive Value
  | string (text : String)
  | integer (number : Int)
  /-- A whole number that cannot be read: it begins as one, but not all of it is digits. -/
  | illegible (written : String)
  /-- A number with a fraction or an exponent: digits times a power of ten, with a sign. -/
  | decimal (negative : Bool) (digits : Nat) (exponent : Int)
  /-- Infinity, with a sign, or no number. -/
  | special (written : String)
  | boolean (value : Bool)
  /-- A date, a time, or both. -/
  | moment (written : String)
  | array (elements : List Value)
  | table (entries : List (String × Value))

/-- The entries of a table, each key at most once, in the order in which they were written. -/
abbrev Entries := List (String × Value)

/-- Takes a value off the front of a text, if there is one, and gives what is left. -/
abbrev Reader (α : Type) := List Char → Option (α × List Char)

/-- A character that may stand in a string or a comment: anything but control characters other than
tab. -/
def isTextual (c : Char) : Bool :=
  c == '\t' || (c.toNat ≥ 0x20 && c.toNat != 0x7f)

/-- A blank inside a line. -/
def isSpace (c : Char) : Bool :=
  c == ' ' || c == '\t'

/-- A text without the blanks at its start. -/
def skipSpaces (cs : List Char) : List Char :=
  cs.dropWhile isSpace

/-- A text without the blanks, line ends and comments at its start, or `none` if there is a
character that may not stand there. -/
def skipFiller (inComment : Bool) : List Char → Option (List Char)
  | [] => some []
  | '\n' :: rest => skipFiller false rest
  | '\x0d' :: '\n' :: rest => skipFiller false rest
  | c :: rest =>
    if inComment then if isTextual c then skipFiller true rest else none
    else if isSpace c then skipFiller false rest
    else if c = '#' then skipFiller true rest
    else some (c :: rest)

/-- What is left of a text after blanks, if a line may end there. -/
def lineEnd? (cs : List Char) : Option (List Char) :=
  match skipSpaces cs with
  | [] => some []
  | '\n' :: rest => some rest
  | '\x0d' :: '\n' :: rest => some rest
  | '#' :: rest => some ('#' :: rest)
  | _ => none

end ChatMarkup.Toml

import ChatMarkup.Toml.Moment
import ChatMarkup.Toml.Table

/-!
# Keys and values of TOML

Keys are names with dots between them. Values are strings, words such as numbers and moments,
arrays, and inline tables.
-/

namespace ChatMarkup.Toml

/-! ## Keys -/

/-- A character of a name that stands without quotes. -/
def isNameChar (c : Char) : Bool :=
  c.isAlphanum || c == '_' || c == '-'

/-- One name of a key, quoted or not. -/
def name? : Reader String
  | '\x22' :: rest => Quote.double.lineString? rest
  | '\x27' :: rest => Quote.single.lineString? rest
  | cs =>
    match cs.takeWhile isNameChar with
    | [] => none
    | name => some (String.ofList name, cs.drop name.length)

/-- A key of at most `count` names, with blanks allowed around its dots. -/
def key? : (count : Nat) → Reader Key
  | 0, _ => none
  | count + 1, cs =>
    match name? cs with
    | none => none
    | some (name, left) =>
      match skipSpaces left with
      | '.' :: more =>
        (key? count (skipSpaces more)).map fun (key, left) => (⟨name :: key.path, key.name⟩, left)
      | left => some (⟨[], name⟩, left)

/-- How many names a key may have. -/
def maxNames : Nat := 80

/-! ## Words -/

/-- A character that no word has: what stands around values, and what ends a line. -/
def endsWord (c : Char) : Bool :=
  c == '=' || c == ',' || c == '[' || c == ']' || c == '\x7b' || c == '\x7d' || c == '#' ||
    c == '\x0d' || c == '\n'

/-- Whether a word goes on after blanks: what comes next neither ends it nor begins a string. -/
def goesOn : List Char → Bool
  | [] => false
  | c :: _ => !endsWord c && c != '\x22' && c != '\x27'

/-- The value of a word. -/
def wordValue? (word : List Char) : Option Value :=
  if word = ['t', 'r', 'u', 'e'] then some (.boolean true)
  else if word = ['f', 'a', 'l', 's', 'e'] then some (.boolean false)
  else if isMoment word then some (.moment (String.ofList word))
  else number? word

/-- The word at the start of a text. Blanks belong to it where it goes on after them, as a date does
with its time. -/
def wordOf : List Char → List Char
  | [] => []
  | c :: rest =>
    if endsWord c || (isSpace c && !goesOn (skipSpaces rest)) then [] else c :: wordOf rest

/-- A value that is one word. -/
def word? : Reader Value := fun cs =>
  let word := wordOf cs
  (wordValue? word).map (·, cs.drop word.length)

/-! ## Values -/

/-- Elements with commas between them, up to a closing character. The last may have a comma too. -/
def elements? {α : Type} (close : Char) (element : Reader α) (cs : List Char) :
    Option (List α × List Char) :=
  match skipFiller false cs with
  | none | some [] => none
  | some (c :: rest) =>
    if c = close then some ([], rest)
    else
      match element (c :: rest) with
      | none => none
      | some (a, left) =>
        match skipFiller false left with
        | none | some [] => none
        | some (d :: left) =>
          if d = close then some ([a], left)
          else if d = ',' && left.length < cs.length then
            (elements? close element left).map fun (as, left) => (a :: as, left)
          else none
termination_by cs.length
decreasing_by simp_all

/-- A key and its value. What may stand around the sign between them is skipped by `skip?`. -/
def pair? (skip? : List Char → Option (List Char)) (value : Reader Value) :
    Reader (Key × Value) := fun cs => do
  let (key, left) ← key? maxNames cs
  let (v, left) ← value (← skip? (← expect? '=' (← skip? left)))
  return ((key, v), left)

/-- The table of an inline table's entries. -/
def inlineTable? (entries : List (Key × Value)) : Option Value := do
  let items ← entries.foldlM (fun items (key, v) => Items.define key v items) ([] : Items)
  return .table (entriesOf items)

/-- A value with at most `depth` arrays and inline tables inside each other. Line ends and comments
may stand anywhere between the parts of these, but not inside a key. -/
def value? (depth : Nat) : Reader Value
  | '\x22' :: rest => (Quote.double.string? rest).map fun (s, left) => (.string s, left)
  | '\x27' :: rest => (Quote.single.string? rest).map fun (s, left) => (.string s, left)
  | '[' :: rest =>
    match depth with
    | 0 => none
    | depth + 1 => (elements? ']' (value? depth) rest).map fun (vs, left) => (.array vs, left)
  | '\x7b' :: rest =>
    match depth with
    | 0 => none
    | depth + 1 => do
      let (entries, left) ← elements? '\x7d' (pair? (skipFiller false) (value? depth)) rest
      return (← inlineTable? entries, left)
  | cs => word? cs

end ChatMarkup.Toml

import ChatMarkup.Toml.Value

/-!
# Strings of TOML

Strings stand between quotation marks, with escapes, or between apostrophes, as they are; three
marks on each side let a string run over several lines.

Results:
* `length_afterBreak_le`: skipping the blanks after a line that goes on makes a text no longer.
-/

namespace ChatMarkup.Toml

/-- The value of a hexadecimal digit. -/
def hexDigit? (c : Char) : Option Nat :=
  if '0' ≤ c && c ≤ '9' then some (c.toNat - '0'.toNat)
  else if 'a' ≤ c && c ≤ 'f' then some (c.toNat - 'a'.toNat + 10)
  else if 'A' ≤ c && c ≤ 'F' then some (c.toNat - 'A'.toNat + 10)
  else none

/-- The number that exactly `count` hexadecimal digits at the start of a text write. -/
def hexNumber? (count : Nat) (cs : List Char) : Option Nat :=
  let digits := cs.take count
  if digits.length = count then
    digits.foldlM (fun n c => (hexDigit? c).map (16 * n + ·)) 0
  else none

/-- The character with a given code point, if there is one. -/
def charOf? (n : Nat) : Option Char :=
  if h : n.isValidChar then some (Char.ofNatAux n h) else none

/-- The character that one letter after a backslash stands for. -/
def shortEscape? : Char → Option Char
  | 'b' => some '\x08'
  | 't' => some '\t'
  | 'n' => some '\n'
  | 'f' => some '\x0c'
  | 'r' => some '\x0d'
  | 'e' => some '\x1b'
  | '\x22' => some '\x22'
  | '\\' => some '\\'
  | _ => none

/-- How many hexadecimal digits follow a letter after a backslash. -/
def escapeDigits? : Char → Option Nat
  | 'x' => some 2
  | 'u' => some 4
  | 'U' => some 8
  | _ => none

/-- A text without the blanks and line ends at its start. -/
def afterBreak : List Char → List Char
  | ' ' :: rest => afterBreak rest
  | '\t' :: rest => afterBreak rest
  | '\n' :: rest => afterBreak rest
  | '\x0d' :: '\n' :: rest => afterBreak rest
  | cs => cs

theorem length_afterBreak_le (cs : List Char) : (afterBreak cs).length ≤ cs.length := by
  fun_induction afterBreak cs <;> simp <;> omega

/-- Whether a text goes on, after blanks, with the end of a line. -/
def breaksLine (cs : List Char) : Bool :=
  match skipSpaces cs with
  | '\n' :: _ => true
  | '\x0d' :: '\n' :: _ => true
  | _ => false

/-- The text that the inside of a string with escapes stands for. With `lines`, it may run over
several lines, and a backslash at the end of a line takes the blanks and line ends after it away. -/
def unescape? (lines : Bool) : List Char → Option (List Char)
  | [] => some []
  | '\\' :: rest =>
    if lines && breaksLine rest then unescape? lines (afterBreak rest)
    else
      match rest with
      | [] => none
      | c :: rest =>
        match escapeDigits? c with
        | some count => do
          let d ← charOf? (← hexNumber? count rest)
          return d :: (← unescape? lines (rest.drop count))
        | none => do
          let d ← shortEscape? c
          return d :: (← unescape? lines rest)
  | '\n' :: rest => if lines then (unescape? lines rest).map ('\n' :: ·) else none
  | '\x0d' :: '\n' :: rest =>
    if lines then (unescape? lines rest).map fun cs => '\x0d' :: '\n' :: cs else none
  | c :: rest => if isTextual c then (unescape? lines rest).map (c :: ·) else none
termination_by cs => cs.length
decreasing_by
  · have h := length_afterBreak_le rest
    simp only [List.length_cons]
    omega
  all_goals simp only [List.length_cons, List.length_drop]; omega

/-- Whether the inside of a string may stand as it is. -/
def isPlain (lines : Bool) : List Char → Bool
  | [] => true
  | '\n' :: rest => lines && isPlain lines rest
  | '\x0d' :: '\n' :: rest => lines && isPlain lines rest
  | c :: rest => isTextual c && isPlain lines rest

/-- The marks that strings stand between. -/
inductive Quote
  /-- Quotation marks, with escapes between them. -/
  | double
  /-- Apostrophes, with nothing escaped. -/
  | single
deriving DecidableEq

namespace Quote

/-- The character of a mark. -/
def char : Quote → Char
  | double => '\x22'
  | single => '\x27'

/-- The text that the inside of a string stands for. -/
def decode? (quote : Quote) (lines : Bool) (inside : List Char) : Option (List Char) :=
  match quote with
  | double => unescape? lines inside
  | single => if isPlain lines inside then some inside else none

/-- Whether a character takes the next one with it, so that a mark after it closes nothing. -/
def shields (quote : Quote) (c : Char) : Bool :=
  quote == double && c == '\\'

/-- The inside of a string on one line, and what is left after its closing mark. -/
def inside? (quote : Quote) : Reader (List Char)
  | [] => none
  | c :: rest =>
    if c = quote.char then some ([], rest)
    else if quote.shields c then
      match rest with
      | [] => none
      | d :: rest => (inside? quote rest).map fun (cs, left) => (c :: d :: cs, left)
    else (inside? quote rest).map fun (cs, left) => (c :: cs, left)

/-- The inside of a string between three marks, and what is left after them. Up to two more marks at
the end belong to the inside. -/
def linesInside? (quote : Quote) : Reader (List Char)
  | [] => none
  | c :: rest =>
    if c = quote.char && (rest.take 2).length = 2 && (rest.take 2).all (· == quote.char) then
      let extra := ((rest.drop 2).take 2).takeWhile (· == quote.char)
      some (extra, rest.drop (2 + extra.length))
    else if quote.shields c then
      match rest with
      | [] => none
      | d :: rest => (linesInside? quote rest).map fun (cs, left) => (c :: d :: cs, left)
    else (linesInside? quote rest).map fun (cs, left) => (c :: cs, left)

/-- A text without one line end at its start. -/
def dropLineEnd : List Char → List Char
  | '\n' :: rest => rest
  | '\x0d' :: '\n' :: rest => rest
  | cs => cs

/-- A string on one line, after its opening mark. -/
def lineString? (quote : Quote) : Reader String := fun cs => do
  let (inside, left) ← quote.inside? cs
  return (String.ofList (← quote.decode? false inside), left)

/-- A string, after its first mark. -/
def string? (quote : Quote) : Reader String := fun cs =>
  if (cs.take 2).length = 2 && (cs.take 2).all (· == quote.char) then do
    let (inside, left) ← quote.linesInside? (dropLineEnd (cs.drop 2))
    return (String.ofList (← quote.decode? true inside), left)
  else quote.lineString? cs

end Quote

end ChatMarkup.Toml

import ChatMarkup.Toml.Quoted

/-!
# Numbers of TOML

Whole numbers in base ten, sixteen, eight and two, and numbers with a fraction or an exponent.
Underscores may stand between digits. Some texts pass for whole numbers though they are none, which
shows only where their value is asked for.
-/

namespace ChatMarkup.Toml

/-- The digits of a text that has digits only, with single underscores between them. -/
def digits? (isDigit : Char → Bool) : List Char → Option (List Char)
  | [] => none
  | [c] => if isDigit c then some [c] else none
  | c :: '_' :: rest => if isDigit c then (digits? isDigit rest).map (c :: ·) else none
  | c :: rest => if isDigit c then (digits? isDigit rest).map (c :: ·) else none

/-- The digits of a whole number in base ten: no zero stands before others. -/
def wholeDigits? (cs : List Char) : Option (List Char) :=
  match digits? Char.isDigit cs with
  | some ('0' :: _ :: _) => none
  | ds => ds

/-- The number that digits write in a base. -/
def numberOf (base : Nat) (digits : List Char) : Nat :=
  digits.foldl (fun n c => base * n + (hexDigit? c).getD 0) 0

/-- A text without the sign at its start, and whether the sign is a minus. -/
def takeSign : List Char → Bool × List Char
  | '-' :: rest => (true, rest)
  | '+' :: rest => (false, rest)
  | cs => (false, cs)

/-- A number in a base, from digits only. -/
def based? (base : Nat) (cs : List Char) : Option Int :=
  (digits? (fun c => (hexDigit? c).any (· < base)) cs).map fun ds => Int.ofNat (numberOf base ds)

/-- A whole number. -/
def integer? : List Char → Option Int
  | '0' :: 'x' :: rest => based? 16 rest
  | '0' :: 'o' :: rest => based? 8 rest
  | '0' :: 'b' :: rest => based? 2 rest
  | cs =>
    let (negative, rest) := takeSign cs
    (wholeDigits? rest).map fun ds =>
      let n := Int.ofNat (numberOf 10 ds)
      if negative then -n else n

/-- The exponent of a number, after its letter. -/
def exponent? (cs : List Char) : Option Int :=
  let (negative, rest) := takeSign cs
  (digits? Char.isDigit rest).map fun ds =>
    let n := Int.ofNat (numberOf 10 ds)
    if negative then -n else n

/-- A number with a fraction or an exponent, or both. -/
def decimal? (cs : List Char) : Option Value := do
  let (negative, unsigned) := takeSign cs
  let isMark (c : Char) : Bool := c == 'e' || c == 'E'
  let mantissa := unsigned.takeWhile (!isMark ·)
  let whole := mantissa.takeWhile (· != '.')
  let fraction := mantissa.drop whole.length
  let power := unsigned.drop mantissa.length
  if fraction.isEmpty && power.isEmpty then none
  let ws ← wholeDigits? whole
  let fs ← if fraction.isEmpty then some [] else digits? Char.isDigit (fraction.drop 1)
  let e ← if power.isEmpty then some 0 else exponent? (power.drop 1)
  return .decimal negative (numberOf 10 (ws ++ fs)) (e - Int.ofNat fs.length)

/-- Whether a text writes infinity or no number at all. -/
def isSpecial (cs : List Char) : Bool :=
  let (_, unsigned) := takeSign cs
  unsigned == ['i', 'n', 'f'] || unsigned == ['n', 'a', 'n']

/-- Whether a text is the mark of a base, with no digits after it. -/
def isBareBase (cs : List Char) : Bool :=
  cs == ['0', 'x'] || cs == ['0', 'o'] || cs == ['0', 'b']

/-- Whether a text passes for a whole number. The mark of a base does, and so does what underscores
divide into parts, of which the first is digits after a sign, the others begin with a digit of base
sixteen, and those before the last also end with one. -/
def looksWhole (cs : List Char) : Bool :=
  let (_, unsigned) := takeSign cs
  let isHex (c : Char) : Bool := (hexDigit? c).isSome
  let isForeign (c : Char) : Bool := c == ' ' || c == '.' || c == 'e' || c == 'E'
  match unsigned.splitOn '_' with
  | (digit :: digits) :: part :: parts =>
    (digit :: digits).all Char.isDigit && digit != '0' && !unsigned.any isForeign &&
      (part :: parts).all (·.head?.any isHex) &&
      (part :: parts).dropLast.all (·.getLast?.any isHex)
  | _ => isBareBase cs

/-- A number, as a value. -/
def number? (cs : List Char) : Option Value :=
  match integer? cs with
  | some n => some (.integer n)
  | none =>
    if isSpecial cs then some (.special (String.ofList cs))
    else if looksWhole cs then some (.illegible (String.ofList cs))
    else decimal? cs

/-! ## Ranges -/

/-- Whether `n` times ten to the power `exponent` is too large for a number of double precision: at
least halfway between the largest one and the power of two after it. -/
def isHuge (n : Nat) (exponent : Int) : Bool :=
  let size := (Nat.toDigits 10 n).length + exponent
  if n = 0 || size < 300 then false
  else if size > 400 then true
  else
    n * Nat.pow 10 exponent.toNat ≥
      (Nat.pow 2 1024 - Nat.pow 2 970) * Nat.pow 10 (-exponent).toNat

mutual

/-- Whether all numbers in a value are in range: whole numbers can be read and have at most 128
bits, and decimals are not too large for double precision. -/
def Value.inRange : Value → Bool
  | .integer (.ofNat n) => n < Nat.pow 2 128
  | .integer (.negSucc n) => n < Nat.pow 2 127
  | .illegible _ => false
  | .decimal _ n exponent => !isHuge n exponent
  | .array elements => elementsInRange elements
  | .table entries => entriesInRange entries
  | _ => true

/-- Whether all numbers in some values are in range. -/
def elementsInRange : List Value → Bool
  | [] => true
  | v :: rest => v.inRange && elementsInRange rest

/-- Whether all numbers in the entries of a table are in range. -/
def entriesInRange : List (String × Value) → Bool
  | [] => true
  | (_, v) :: rest => v.inRange && entriesInRange rest

end

end ChatMarkup.Toml

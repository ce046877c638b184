/-!
# Lengths in UTF-16 units

A message transport counts text in UTF-16 code units: one for a character of the basic plane, two
for any other. This module measures texts in units and cuts them into slices of bounded length,
never inside a character.

Results:
* `units_append`: the length of two texts together is the sum of their lengths.
* `fill_fst_append_snd`: filling a slice loses nothing of the text.
* `length_fill_snd_le`: what filling leaves over is no longer than what it was given.

Out of scope: grapheme clusters. A flag, which is shown as one sign, is two characters and counts
four.
-/

namespace ChatMarkup.Text

/-- The UTF-16 units that one character takes. -/
def width (c : Char) : Nat :=
  if c.toNat < 0x10000 then 1 else 2

/-- The UTF-16 units that a list of characters takes. -/
def unitsOf (cs : List Char) : Nat :=
  cs.foldr (fun c n => width c + n) 0

/-- The length of a text in UTF-16 units. -/
def units (s : String) : Nat :=
  unitsOf s.toList

theorem one_le_width (c : Char) : 1 ≤ width c := by
  unfold width; split <;> decide

theorem width_le_two (c : Char) : width c ≤ 2 := by
  unfold width; split <;> decide

@[simp] theorem unitsOf_nil : unitsOf [] = 0 := rfl

@[simp] theorem unitsOf_cons (c : Char) (cs : List Char) :
    unitsOf (c :: cs) = width c + unitsOf cs := rfl

@[simp] theorem unitsOf_append (cs ds : List Char) :
    unitsOf (cs ++ ds) = unitsOf cs + unitsOf ds := by
  induction cs with
  | nil => simp
  | cons c cs ih => simp [ih, Nat.add_assoc]

@[simp] theorem units_append (s t : String) : units (s ++ t) = units s + units t := by
  simp [units]

/-- The longest beginning of a text that takes at most `room` units, and what is left after it. -/
def fill (room : Nat) : List Char → List Char × List Char
  | [] => ([], [])
  | c :: rest =>
    if width c ≤ room then
      let filled := fill (room - width c) rest
      (c :: filled.1, filled.2)
    else ([], c :: rest)

theorem fill_fst_append_snd (room : Nat) (cs : List Char) :
    (fill room cs).1 ++ (fill room cs).2 = cs := by
  fun_induction fill room cs with
  | case1 => rfl
  | case2 _ _ _ _ _ ih => simpa using ih
  | case3 => rfl

theorem length_fill_snd_le (room : Nat) (cs : List Char) :
    (fill room cs).2.length ≤ cs.length := by
  have := congrArg List.length (fill_fst_append_snd room cs)
  simp at this; omega

/-- Cuts characters into consecutive slices, each filled before the next begins. A slice always
takes its first character, even one wider than `size`. -/
def slicesOf (size : Nat) : List Char → List (List Char)
  | [] => []
  | c :: rest =>
    (c :: (fill (size - width c) rest).1) :: slicesOf size (fill (size - width c) rest).2
termination_by cs => cs.length
decreasing_by
  have := length_fill_snd_le (size - width c) rest
  simp; omega

/-- Cuts a text into consecutive slices of at most `size` units each. There are none when `size` is
zero, and with `size` one a character of two units has a slice of its own. -/
def slices (size : Nat) (s : String) : List String :=
  if size = 0 then [] else (slicesOf size s.toList).map String.ofList

end ChatMarkup.Text

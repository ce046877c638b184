import ChatMarkup.Proofs.Text.Slices

/-!
# The UTF-16 encoding

Texts are measured without being encoded. Here is the encoding that the measure speaks of: a
character of the basic plane is one unit, its code point, and any other is a pair of surrogates,
which share the bits of the code point above the basic plane. That it is an encoding is shown by
reading it back.

Results:
* `length_encode`: the encoding of a text has as many units as the text is measured to have.
* `decode?_encode`: the encoding of a text, read back, is the text.
* `encode_eq_flatMap_slices`: slices are cut between characters, so each is encoded by itself.
-/

namespace ChatMarkup.Text

/-- The UTF-16 units of a character. -/
def encodeChar (c : Char) : List UInt16 :=
  if c.toNat < 0x10000 then [.ofNat c.toNat]
  else
    [.ofNat (0xD800 + (c.toNat - 0x10000) / 0x400), .ofNat (0xDC00 + (c.toNat - 0x10000) % 0x400)]

/-- The UTF-16 units of a text. -/
def encode (s : String) : List UInt16 :=
  s.toList.flatMap encodeChar

/-- Whether a unit is the first of a pair. -/
def isLeading (u : UInt16) : Bool :=
  0xD800 ≤ u.toNat && u.toNat < 0xDC00

/-- Whether a unit is the second of a pair. -/
def isTrailing (u : UInt16) : Bool :=
  0xDC00 ≤ u.toNat && u.toNat < 0xE000

/-- The characters that units encode, or `none` if a surrogate is not in a pair. -/
def decode? : List UInt16 → Option (List Char)
  | [] => some []
  | u :: rest =>
    if isLeading u then
      match rest with
      | [] => none
      | v :: rest =>
        if isTrailing v then
          (decode? rest).map
            (Char.ofNat (0x10000 + (u.toNat - 0xD800) * 0x400 + (v.toNat - 0xDC00)) :: ·)
        else none
    else if isTrailing u then none
    else (decode? rest).map (Char.ofNat u.toNat :: ·)

theorem decode?_cons_of_basic {u : UInt16} (hleading : isLeading u = false)
    (htrailing : isTrailing u = false) (rest : List UInt16) :
    decode? (u :: rest) = (decode? rest).map (Char.ofNat u.toNat :: ·) := by
  simp [decode?.eq_def (u :: rest), hleading, htrailing]

theorem decode?_cons_of_pair {u v : UInt16} (hleading : isLeading u = true)
    (htrailing : isTrailing v = true) (rest : List UInt16) :
    decode? (u :: v :: rest) =
      (decode? rest).map
        (Char.ofNat (0x10000 + (u.toNat - 0xD800) * 0x400 + (v.toNat - 0xDC00)) :: ·) := by
  simp [decode?.eq_def (u :: v :: rest), hleading, htrailing]

/-! ## Lengths -/

theorem length_encodeChar (c : Char) : (encodeChar c).length = width c := by
  unfold encodeChar width
  split
  · rfl
  · rfl

/-- **The encoding of a text has as many units as the text is measured to have.** -/
theorem length_encode (s : String) : (encode s).length = units s := by
  unfold encode units
  induction s.toList with
  | nil => rfl
  | cons c cs ih =>
    rw [List.flatMap_cons, List.length_append, length_encodeChar, ih, unitsOf_cons]

/-! ## Reading back -/

/-- Code points leave out those of the surrogates. -/
theorem toNat_cases (c : Char) :
    c.toNat < 0xD800 ∨ (0xE000 ≤ c.toNat ∧ c.toNat < 0x110000) := by
  rcases c.valid with h | ⟨hlow, hhigh⟩
  · exact .inl h
  · exact .inr ⟨hlow, hhigh⟩

/-- A number of sixteen bits is a unit. -/
theorem toNat_ofNat {n : Nat} (h : n < 0x10000) : (UInt16.ofNat n).toNat = n :=
  UInt16.toNat_ofNat_of_lt' h

/-- **The units of a character, read back before any others, are the character.** -/
theorem decode?_encodeChar_append (c : Char) (rest : List UInt16) :
    decode? (encodeChar c ++ rest) = (decode? rest).map (c :: ·) := by
  have hpoint := toNat_cases c
  unfold encodeChar
  by_cases hbasic : c.toNat < 0x10000
  · have hunit := toNat_ofNat hbasic
    have hleading : isLeading (.ofNat c.toNat) = false := by
      simp only [isLeading, hunit, Bool.and_eq_false_iff, decide_eq_false_iff_not]
      omega
    have htrailing : isTrailing (.ofNat c.toNat) = false := by
      simp only [isTrailing, hunit, Bool.and_eq_false_iff, decide_eq_false_iff_not]
      omega
    rw [if_pos hbasic, List.singleton_append, decode?_cons_of_basic hleading htrailing, hunit,
      Char.ofNat_toNat]
  · -- the bits above the basic plane are twenty, ten for each surrogate
    obtain ⟨above, habove⟩ : ∃ above, c.toNat = 0x10000 + above := ⟨c.toNat - 0x10000, by omega⟩
    have hfirst := toNat_ofNat (show 0xD800 + above / 0x400 < 0x10000 by omega)
    have hsecond := toNat_ofNat (show 0xDC00 + above % 0x400 < 0x10000 by omega)
    have hleading : isLeading (.ofNat (0xD800 + above / 0x400)) = true := by
      simp only [isLeading, hfirst, Bool.and_eq_true, decide_eq_true_eq]
      omega
    have htrailing : isTrailing (.ofNat (0xDC00 + above % 0x400)) = true := by
      simp only [isTrailing, hsecond, Bool.and_eq_true, decide_eq_true_eq]
      omega
    have hsum : 0x10000 + (0xD800 + above / 0x400 - 0xD800) * 0x400 +
        (0xDC00 + above % 0x400 - 0xDC00) = c.toNat := by
      omega
    have hrest : c.toNat - 0x10000 = above := by omega
    rw [if_neg hbasic, hrest, List.cons_append, List.singleton_append,
      decode?_cons_of_pair hleading htrailing, hfirst, hsecond, hsum, Char.ofNat_toNat]

/-- **The encoding of a text, read back, is the text.** -/
theorem decode?_encode (s : String) : decode? (encode s) = some s.toList := by
  unfold encode
  induction s.toList with
  | nil => rfl
  | cons c cs ih => rw [List.flatMap_cons, decode?_encodeChar_append, ih]; rfl

/-! ## Slices -/

/-- **Slices are encoded by themselves**: no cut is inside a pair. -/
theorem encode_eq_flatMap_slices {size : Nat} (h : 0 < size) (s : String) :
    encode s = (slices size s).flatMap encode := by
  have hjoin : ∀ slices : List String, encode (String.join slices) = slices.flatMap encode := by
    intro slices
    induction slices with
    | nil => rfl
    | cons slice rest ih =>
      rw [List.flatMap_cons, ← ih, String.join_cons, encode, String.toList_append,
        List.flatMap_append]
      rfl
  rw [← hjoin, join_slices h]

end ChatMarkup.Text

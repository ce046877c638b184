import ChatMarkup.Text.Units

/-!
# Slices of a text

What the slices of a text are, put together, and how long each of them can be. A slice is filled
as far as it goes, so its length stays within the size, unless the size is less than its first
character takes: that character is a slice by itself then.

Results:
* `flatten_slicesOf`, `join_slices`: the slices one after the other are the text.
* `fits_or_single_of_mem_slicesOf`, `units_le_or_single_of_mem_slices`: a slice is within the size
  or a single wide character.
* `units_le_of_mem_slices`: with room for any character, all slices are within the size.
* `ne_empty_of_mem_slices`: no slice is empty.
-/

namespace ChatMarkup.Text

/-- Filling takes no more than there is room for. -/
theorem unitsOf_fill_fst_le (room : Nat) (cs : List Char) : unitsOf (fill room cs).1 ≤ room := by
  fun_induction fill room cs with
  | case1 => exact Nat.zero_le _
  | case2 room c rest hfits filled ih =>
    show width c + unitsOf filled.1 ≤ room
    have hfilled : unitsOf filled.1 ≤ room - width c := ih
    omega
  | case3 => exact Nat.zero_le _

/-- Without room nothing is taken, because no character takes no units. -/
theorem fill_zero (cs : List Char) : fill 0 cs = ([], cs) := by
  cases cs with
  | nil => rfl
  | cons c rest =>
    have hwide := one_le_width c
    rw [fill, if_neg (by omega)]

/-- **The slices one after the other are the text.** -/
theorem flatten_slicesOf (size : Nat) (cs : List Char) : (slicesOf size cs).flatten = cs := by
  fun_induction slicesOf size cs with
  | case1 => rfl
  | case2 c rest ih => rw [List.flatten_cons, ih, List.cons_append, fill_fst_append_snd]

/-- **A slice is within the size or a single character** that takes more. -/
theorem fits_or_single_of_mem_slicesOf (size : Nat) (cs : List Char) :
    ∀ slice ∈ slicesOf size cs, unitsOf slice ≤ size ∨ ∃ c, slice = [c] ∧ size < width c := by
  fun_induction slicesOf size cs with
  | case1 => simp
  | case2 c rest ih =>
    intro slice hslice
    rcases List.mem_cons.1 hslice with rfl | hmem
    · by_cases hwide : size < width c
      · right
        have hroom : size - width c = 0 := by omega
        exact ⟨c, by rw [hroom, fill_zero], hwide⟩
      · left
        have hrest := unitsOf_fill_fst_le (size - width c) rest
        rw [unitsOf_cons]
        omega
    · exact ih slice hmem

/-- A slice takes a character at least. -/
theorem nil_notMem_slicesOf (size : Nat) (cs : List Char) : [] ∉ slicesOf size cs := by
  fun_induction slicesOf size cs with
  | case1 => exact List.not_mem_nil
  | case2 c rest ih => simp [ih]

section Slices

variable {size : Nat} {s slice : String}

/-- The slices of a text are those of its characters, if they can take anything. -/
theorem mem_slices :
    slice ∈ slices size s ↔ 0 < size ∧ slice.toList ∈ slicesOf size s.toList := by
  unfold slices
  split
  · rename_i hsize
    simp [hsize]
  · rename_i hsize
    rw [List.mem_map, and_iff_right (by omega)]
    constructor
    · rintro ⟨cs, hcs, rfl⟩
      rwa [String.toList_ofList]
    · exact fun hmem => ⟨slice.toList, hmem, String.ofList_toList⟩

/-- A slice has no characters but those of the text. -/
theorem mem_toList_of_mem_slices (hslice : slice ∈ slices size s) {c : Char}
    (hc : c ∈ slice.toList) : c ∈ s.toList := by
  rw [← flatten_slicesOf size s.toList]
  exact List.mem_flatten_of_mem (mem_slices.1 hslice).2 hc

/-- **A slice is within the size**, or the size is one and the slice is a character of two units. -/
theorem units_le_or_single_of_mem_slices (hslice : slice ∈ slices size s) :
    units slice ≤ size ∨ size = 1 ∧ ∃ c, slice = String.singleton c ∧ width c = 2 := by
  obtain ⟨hsize, hmem⟩ := mem_slices.1 hslice
  rcases fits_or_single_of_mem_slicesOf size s.toList _ hmem with hfits | ⟨c, hc, hwide⟩
  · left
    exact hfits
  · right
    have hsingle : slice = String.singleton c := String.toList_inj.1 (by simpa using hc)
    have hnarrow := width_le_two c
    exact ⟨by omega, c, hsingle, by omega⟩

/-- **All slices are within the size** if it has room for any character. -/
theorem units_le_of_mem_slices (hsize : 2 ≤ size) (hslice : slice ∈ slices size s) :
    units slice ≤ size := by
  rcases units_le_or_single_of_mem_slices hslice with hfits | ⟨hone, -⟩
  · exact hfits
  · omega

/-- **The slices one after the other are the text**, if they can take anything. -/
theorem join_slices (hsize : 0 < size) (s : String) : String.join (slices size s) = s := by
  have hflatten := flatten_slicesOf size s.toList
  unfold slices
  rw [if_neg (by omega), ← String.toList_inj, String.toList_join, List.flatMap_map]
  simpa [List.flatMap_def] using hflatten

/-- No slice is empty. -/
theorem ne_empty_of_mem_slices (hslice : slice ∈ slices size s) : slice ≠ "" := by
  rintro rfl
  exact nil_notMem_slicesOf size s.toList (mem_slices.1 hslice).2

/-- There are slices of any text but the empty one. -/
theorem slices_ne_nil (hsize : 0 < size) (hs : s ≠ "") : slices size s ≠ [] := by
  unfold slices
  rw [if_neg (by omega)]
  intro hnil
  have hslices : slicesOf size s.toList = [] := by simpa using hnil
  have hflatten := flatten_slicesOf size s.toList
  rw [hslices] at hflatten
  exact hs (by simpa using hflatten.symm)

end Slices

end ChatMarkup.Text

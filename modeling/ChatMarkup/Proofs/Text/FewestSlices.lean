import ChatMarkup.Proofs.Text.Slices

/-!
# As few slices as possible

A slice is filled as far as it goes, so the next character of the text never fits into it any more.
That is also why no other way to cut the text, into pieces that each stay within the size, has fewer
pieces: what filling leaves over is always an end of what the other cut still has to place.

Results:
* `exceeds_of_fill`, `exceeds_of_slicesOf`: the character after a slice does not fit into it.
* `fill_snd_suffix`: filling takes all of what fits.
* `length_slicesOf_le_of_suffix`: slicing stays ahead of any cut.
* `slices_fewest`: the slices of a text are a cut of it, filled throughout, with the fewest pieces.
-/

namespace ChatMarkup.Text

/-! ## Full slices -/

/-- Filling stops at a character that does not fit any more. -/
theorem exceeds_of_fill {room : Nat} {cs rest : List Char} {c : Char}
    (h : (fill room cs).2 = c :: rest) : room < unitsOf (fill room cs).1 + width c := by
  fun_induction fill room cs with
  | case1 => cases h
  | case2 room d cs hfits filled ih =>
    have hfilled : room - width d < unitsOf filled.1 + width c := ih h
    show room < width d + unitsOf filled.1 + width c
    omega
  | case3 room d cs hwide =>
    obtain ⟨rfl, -⟩ := List.cons.inj h
    rw [unitsOf_nil]
    omega

/-- **The character after a slice does not fit into it**: the next slice begins with it. -/
theorem exceeds_of_slicesOf {size : Nat} {cs : List Char} {before : List (List Char)}
    {slice next : List Char} {after : List (List Char)}
    (h : slicesOf size cs = before ++ slice :: next :: after) :
    ∃ c rest, next = c :: rest ∧ size < unitsOf slice + width c := by
  fun_induction slicesOf size cs generalizing before with
  | case1 => simp at h
  | case2 d cs ih =>
    cases before with
    | cons first before => exact ih (List.cons.inj h).2
    | nil =>
      obtain ⟨rfl, hlater⟩ := List.cons.inj h
      cases hleft : (fill (size - width d) cs).2 with
      | nil =>
        rw [hleft, slicesOf] at hlater
        cases hlater
      | cons c rest =>
        rw [hleft, slicesOf] at hlater
        have hfull := exceeds_of_fill hleft
        refine ⟨c, _, (List.cons.inj hlater).1.symm, ?_⟩
        rw [unitsOf_cons]
        omega

/-! ## Slicing stays ahead -/

/-- Filling takes all of what fits, so what it leaves over is an end of what comes after that. -/
theorem fill_snd_suffix {room : Nat} {part : List Char} (hpart : unitsOf part ≤ room)
    (later : List Char) : (fill room (part ++ later)).2 <:+ later := by
  induction part generalizing room with
  | nil => exact ⟨_, fill_fst_append_snd room later⟩
  | cons c part ih =>
    rw [unitsOf_cons] at hpart
    have hfits : width c ≤ room := by omega
    rw [List.cons_append, fill, if_pos hfits]
    exact ih (by omega)

/-- **Slicing stays ahead.** However characters are cut into pieces that each stay within the size,
any end of the characters has at most as many slices. -/
theorem length_slicesOf_le_of_suffix {size : Nat} (pieces : List (List Char))
    (hsize : ∀ piece ∈ pieces, unitsOf piece ≤ size) (cs : List Char)
    (hsuffix : cs <:+ pieces.flatten) : (slicesOf size cs).length ≤ pieces.length := by
  induction pieces generalizing cs with
  | nil =>
    have hnone : cs = [] := List.suffix_nil.1 hsuffix
    simp [hnone, slicesOf]
  | cons piece pieces ih =>
    have hrest := fun p hp => hsize p (List.mem_cons_of_mem piece hp)
    obtain ⟨passed, hpassed⟩ := hsuffix
    rw [List.flatten_cons] at hpassed
    rcases List.append_eq_append_iff.1 hpassed with ⟨part, hpiece, hcs⟩ | ⟨part, -, hcs⟩
    · -- part of the piece is still to be placed: the slice takes all of it
      cases part with
      | nil =>
        have hahead := ih hrest cs ⟨[], by rw [hcs]; rfl⟩
        rw [List.length_cons]
        omega
      | cons c part =>
        have hpart : unitsOf (c :: part) ≤ size := by
          have hfits := hsize piece List.mem_cons_self
          rw [hpiece, unitsOf_append] at hfits
          omega
        rw [unitsOf_cons] at hpart
        have hlater := fill_snd_suffix (show unitsOf part ≤ size - width c by omega) pieces.flatten
        have hahead := ih hrest _ hlater
        rw [hcs, List.cons_append, slicesOf, List.length_cons, List.length_cons]
        omega
    · -- slicing is past the piece already
      have hahead := ih hrest cs ⟨part, hcs.symm⟩
      rw [List.length_cons]
      omega

/-! ## Texts -/

/-- Pieces that one after the other are a text, each of at most `size` units. -/
structure CutWithin (size : Nat) (s : String) (pieces : List String) : Prop where
  join_eq : String.join pieces = s
  units_le : ∀ piece ∈ pieces, units piece ≤ size

theorem CutWithin.flatten_eq {size : Nat} {s : String} {pieces : List String}
    (h : CutWithin size s pieces) : (pieces.map String.toList).flatten = s.toList := by
  rw [← h.join_eq, String.toList_join, List.flatMap_def]

section Slices

variable {size : Nat} {s : String}

theorem map_toList_slices (hsize : 0 < size) (s : String) :
    (slices size s).map String.toList = slicesOf size s.toList := by
  unfold slices
  rw [if_neg (by omega), List.map_map]
  simp [Function.comp_def]

/-- **Every slice but the last is full**: with the next character of the text it would exceed the
size. -/
theorem exceeds_of_slices (hsize : 0 < size) {before after : List String} {slice : String}
    (h : slices size s = before ++ slice :: after) (hafter : after ≠ []) :
    ∃ c rest, s = String.join before ++ slice ++ String.singleton c ++ rest ∧
      size < units (slice ++ String.singleton c) := by
  obtain ⟨next, later, rfl⟩ := List.exists_cons_of_ne_nil hafter
  have hlists := map_toList_slices hsize s
  rw [h, List.map_append, List.map_cons, List.map_cons] at hlists
  obtain ⟨c, rest, hnext, hfull⟩ := exceeds_of_slicesOf hlists.symm
  refine ⟨c, String.ofList rest ++ String.join later, ?_, ?_⟩
  · rw [← join_slices hsize s, h, ← String.toList_inj]
    simp [hnext]
  · rw [units_append]
    simpa [units] using hfull

/-- No cut of a text within the size has fewer pieces than it has slices. -/
theorem length_slices_le {pieces : List String} (h : CutWithin size s pieces) :
    (slices size s).length ≤ pieces.length := by
  unfold slices
  split
  · exact Nat.zero_le _
  · have hwithin : ∀ piece ∈ pieces.map String.toList, unitsOf piece ≤ size := by
      intro cs hcs
      obtain ⟨piece, hpiece, rfl⟩ := List.mem_map.1 hcs
      exact h.units_le piece hpiece
    have hahead := length_slicesOf_le_of_suffix _ hwithin s.toList
      (h.flatten_eq ▸ List.suffix_refl _)
    simpa using hahead

end Slices

/-- **Slices lose nothing, keep to the size and are as few as possible.** For all texts and all
sizes but zero: no slice is empty, and the slices one after the other are the text. A slice takes at
most `size` units, unless the size is one and the slice is a single character of two units. Every
slice but the last is full: with the next character of the text it would exceed the size. And no
way to cut the text into pieces within the size has fewer pieces, while the slices are such a cut
themselves as soon as the size has room for any character. -/
theorem slices_fewest {size : Nat} (hsize : 1 ≤ size) (s : String) :
    (∀ slice ∈ slices size s, slice ≠ "") ∧
      String.join (slices size s) = s ∧
      (∀ slice ∈ slices size s,
        units slice ≤ size ∨ size = 1 ∧ ∃ c, slice = String.singleton c ∧ width c = 2) ∧
      (∀ before slice after, slices size s = before ++ slice :: after → after ≠ [] →
        ∃ c rest, s = String.join before ++ slice ++ String.singleton c ++ rest ∧
          size < units (slice ++ String.singleton c)) ∧
      (∀ pieces, CutWithin size s pieces → (slices size s).length ≤ pieces.length) ∧
      (2 ≤ size → CutWithin size s (slices size s)) := by
  have hjoin := join_slices hsize s
  exact ⟨fun slice => ne_empty_of_mem_slices, hjoin,
    fun slice => units_le_or_single_of_mem_slices,
    fun before slice after => exceeds_of_slices hsize,
    fun pieces => length_slices_le,
    fun htwo => ⟨hjoin, fun slice => units_le_of_mem_slices htwo⟩⟩

/-- Narrow and wide characters in slices of two units: a wide one does not fit beside another. -/
theorem slices_fewest_wide_between_narrow :
    let s := "ab😀c"
    1 ≤ 2 ∧ slices 2 s = ["ab", "😀", "c"] ∧
      (∃ c rest, s = String.join ["ab"] ++ "😀" ++ String.singleton c ++ rest ∧
        2 < units ("😀" ++ String.singleton c)) ∧
      CutWithin 2 s ["a", "b", "😀", "c"] ∧
      (slices 2 s).length ≤ ["a", "b", "😀", "c"].length := by
  intro s
  have hslices : slices 2 s = ["ab", "😀", "c"] := by decide +kernel
  have hcut : CutWithin 2 s ["a", "b", "😀", "c"] := ⟨by decide +kernel, by decide +kernel⟩
  obtain ⟨-, -, -, hfull, hfewest, -⟩ := slices_fewest (show 1 ≤ 2 by decide) s
  exact ⟨by decide, hslices, hfull ["ab"] "😀" ["c"] hslices (by decide), hcut, hfewest _ hcut⟩

end ChatMarkup.Text

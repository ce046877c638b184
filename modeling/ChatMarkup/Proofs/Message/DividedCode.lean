import ChatMarkup.Proofs.Dialect.Fence
import ChatMarkup.Proofs.Message.Deliverable

/-!
# Code that was divided

The divider for code makes a fence of each slice of the code. From the fences all of the code can be
had back, and its language from each of them. How long a fence is can be told from its slice:
escapes come on top of what the divider reckons with, a unit for each backtick and each backslash.

Results:
* `units_codeFence_eq`: how long a fragment is, from its slice.
* `code_fragments_read_back`: what is read of the fragments of code, put together, is the code.
-/

namespace ChatMarkup

/-- The reserved characters of code are the backticks and the backslashes. -/
theorem countP_reserved_code (cs : List Char) :
    cs.countP (· ∈ Grammar.code.reserved) = cs.count '\x60' + cs.count '\\' := by
  induction cs with
  | nil => rfl
  | cons c cs ih =>
    rw [List.countP_cons, List.count_cons, List.count_cons, ih]
    by_cases hbacktick : c = '\x60'
    · subst hbacktick
      simp [Grammar.reserved]
      omega
    by_cases hbackslash : c = '\\'
    · subst hbackslash
      simp [Grammar.reserved]
      omega
    · simp [Grammar.reserved, hbacktick, hbackslash]

/-- **The units of a fragment**: those of its fence and its slice, and one for each escape. -/
theorem units_codeFence_eq (language : Option String) (slice : String) :
    Text.units (codeFence language slice) =
      8 + Text.units (Grammar.text.escape (language.getD "")) + Text.units slice +
        (slice.toList.count '\x60' + slice.toList.count '\\') := by
  rw [units_codeFence, Grammar.units_escape .code, countP_reserved_code, Divider.fenceUnits,
    Nat.add_comm 8, Nat.add_assoc _ (Text.units slice)]

/-- What the divider for code makes of code, in the units that its fence takes. -/
theorem code_eq_map_codeFence (r : Renderer) (language : Option String) (code : String)
    (limit : Nat) :
    Divider.code r (.leaf (.codeBlock language code)) limit =
      (Text.slices (limit - (8 + Text.units (Grammar.text.escape (language.getD "")))) code).map
        (codeFence language) := by
  rw [Nat.add_comm 8]
  rfl

/-- **Divided code is all there.** For all code in any language that is named in one line, and for
all limits: if a fence leaves no room, the code is not divided. Else the fragments, read back, each
have the language of the code, and a piece of it that is not empty; the pieces one after the other
are the code; a fragment is as long as its fence, its piece and the escapes in it together; and a
piece takes no more than the room in a fence, unless it is a character of two units where there is
room for one. -/
theorem code_fragments_read_back (r : Renderer) {language : Option String}
    (hlanguage : '\n' ∉ (language.getD "").toList) (code : String) (limit : Nat) :
    let overhead := 8 + Text.units (Grammar.text.escape (language.getD ""))
    let fragments := Divider.code r (.leaf (.codeBlock language code)) limit
    (limit ≤ overhead → fragments = []) ∧
      (overhead < limit → ∃ pieces : List String,
        fragments.map Fence.read? =
            pieces.map (fun piece => some { language := language.getD "", code := piece }) ∧
          String.join pieces = code ∧
          fragments.map Text.units = pieces.map (fun piece => overhead + Text.units piece +
            (piece.toList.count '\x60' + piece.toList.count '\\')) ∧
          ∀ piece ∈ pieces, piece ≠ "" ∧
            (Text.units piece ≤ limit - overhead ∨
              limit - overhead = 1 ∧ ∃ c, piece = String.singleton c ∧ Text.width c = 2)) := by
  intro overhead fragments
  have hfragments : fragments = (Text.slices (limit - overhead) code).map (codeFence language) :=
    code_eq_map_codeFence r language code limit
  rw [hfragments]
  constructor
  · intro hle
    rw [Nat.sub_eq_zero_of_le hle, Text.slices, if_pos rfl, List.map_nil]
  · intro hlt
    refine ⟨Text.slices (limit - overhead) code, ?_, Text.join_slices (Nat.sub_pos_of_lt hlt) code,
      ?_, ?_⟩
    · rw [List.map_map]
      exact List.map_congr_left fun slice _ => Fence.read?_codeFence hlanguage slice
    · rw [List.map_map]
      refine List.map_congr_left fun slice _ => ?_
      rw [Function.comp_apply, units_codeFence_eq]
    · intro piece hpiece
      exact ⟨Text.ne_empty_of_mem_slices hpiece, Text.units_le_or_single_of_mem_slices hpiece⟩

/-- Code with escapes, a newline and a wide character, where a fence leaves room for one unit. -/
theorem code_fragments_read_back_single_units :
    let r := Renderer.top {} standardRules
    let language : Option String := some "c+"
    let code := "\x60\n😀\\"
    let overhead := 8 + Text.units (Grammar.text.escape (language.getD ""))
    let fragments := Divider.code r (.leaf (.codeBlock language code)) 12
    '\n' ∉ (language.getD "").toList ∧ overhead < 12 ∧ ∃ pieces : List String,
      fragments.map Fence.read? =
          pieces.map (fun piece => some { language := language.getD "", code := piece }) ∧
        String.join pieces = code ∧
        fragments.map Text.units = pieces.map (fun piece => overhead + Text.units piece +
          (piece.toList.count '\x60' + piece.toList.count '\\')) ∧
        ∀ piece ∈ pieces, piece ≠ "" ∧
          (Text.units piece ≤ 12 - overhead ∨
            12 - overhead = 1 ∧ ∃ c, piece = String.singleton c ∧ Text.width c = 2) := by
  intro r language code overhead fragments
  have hlanguage : '\n' ∉ (language.getD "").toList := by decide
  have hroom : overhead < 12 := by decide
  exact ⟨hlanguage, hroom, (code_fragments_read_back r hlanguage code 12).2 hroom⟩

end ChatMarkup

import ChatMarkup.Proofs.Dialect.Escaped

/-!
# Escaping undone

A grammar can read back what it has written. The reading is strict: behind a backslash only a
reserved character may stand, and no reserved character may stand anywhere else. So what is read is
the written form of just one text, and no written form is refused.

The backslash is reserved itself. A run of backslashes is therefore read in pairs from its start,
and the last of an odd number of them belongs to the character after the run.

Results:
* `decode_escapeChar_append`, `decode_flatMap_escapeChar`: what was written of characters is read
  back.
* `flatMap_escapeChar_of_decode`: what is read was written so.
* `isSome_decode`: what could be the escaped form of a text is read, and nothing else.
* `escape_unescape`: escaping is exact and can be undone.
-/

namespace ChatMarkup.Grammar

variable {g : Grammar}

/-- Reads characters as the escaped form of a text: a pair as its second character, and any other
character as itself. There is nothing to read if a backslash does not stand before a reserved
character, or if a reserved character stands outside a pair. -/
def decode (g : Grammar) : List Char → Option (List Char)
  | [] => some []
  | '\\' :: c :: rest => if c ∈ g.reserved then (g.decode rest).map (c :: ·) else none
  | c :: rest => if c ∈ g.reserved then none else (g.decode rest).map (c :: ·)

/-- The text that a grammar writes so, if there is one. -/
def unescape? (g : Grammar) (t : String) : Option String :=
  (g.decode t.toList).map String.ofList

theorem decode_pair {c : Char} (hc : c ∈ g.reserved) (rest : List Char) :
    g.decode ('\\' :: c :: rest) = (g.decode rest).map (c :: ·) := by
  rw [decode, if_pos hc]

theorem decode_plain {c : Char} (hc : c ∉ g.reserved) (rest : List Char) :
    g.decode (c :: rest) = (g.decode rest).map (c :: ·) := by
  rw [decode, if_neg hc]
  intro d after heq
  exact absurd heq (ne_backslash_of_not_mem hc)

/-! ## Reading what was written -/

/-- One character is read back, whatever comes after it. -/
theorem decode_escapeChar_append (g : Grammar) (c : Char) (rest : List Char) :
    g.decode (g.escapeChar c ++ rest) = (g.decode rest).map (c :: ·) := by
  unfold escapeChar
  split
  · rename_i hc
    exact decode_pair hc rest
  · rename_i hc
    exact decode_plain hc rest

theorem decode_flatMap_escapeChar (g : Grammar) (cs : List Char) :
    g.decode (cs.flatMap g.escapeChar) = some cs := by
  induction cs with
  | nil => rfl
  | cons c cs ih =>
    rw [List.flatMap_cons, decode_escapeChar_append, ih]
    rfl

/-- **What was written is read back.** -/
theorem unescape?_escape (g : Grammar) (s : String) : g.unescape? (g.escape s) = some s := by
  unfold unescape?
  rw [toList_escape, decode_flatMap_escapeChar, Option.map_some, String.ofList_toList]

/-! ## Writing what was read -/

/-- What is read was written so, one lexeme after the other. -/
theorem flatMap_escapeChar_of_decode {cs ds : List Char} (h : g.decode ds = some cs) :
    cs.flatMap g.escapeChar = ds := by
  fun_induction decode g ds generalizing cs with
  | case1 =>
    obtain rfl := Option.some.inj h
    rfl
  | case2 c rest hc ih =>
    obtain ⟨later, hlater, rfl⟩ := Option.map_eq_some_iff.1 h
    rw [List.flatMap_cons, ih hlater, escapeChar, if_pos hc]
    rfl
  | case3 => cases h
  | case4 => cases h
  | case5 c rest hpair hc ih =>
    obtain ⟨later, hlater, rfl⟩ := Option.map_eq_some_iff.1 h
    rw [List.flatMap_cons, ih hlater, escapeChar, if_neg hc]
    rfl

/-- **What is read was written so.** -/
theorem escape_of_unescape? {s t : String} (h : g.unescape? t = some s) : g.escape s = t := by
  obtain ⟨cs, hcs, rfl⟩ := Option.map_eq_some_iff.1 h
  rw [← String.toList_inj, toList_escape, String.toList_ofList]
  exact flatMap_escapeChar_of_decode hcs

/-! ## What is read at all -/

theorem isSome_decode (g : Grammar) (ds : List Char) : (g.decode ds).isSome = g.accepts ds := by
  fun_induction decode g ds with
  | case1 => rfl
  | case2 c rest hc ih =>
    rw [accepts_pair, Option.isSome_map, ih, decide_eq_true hc, Bool.true_and]
  | case3 c rest hc =>
    rw [accepts_pair, decide_eq_false hc, Bool.false_and]
    rfl
  | case4 c rest hunpaired hc =>
    -- the last character may be a backslash, which no pair begins with then
    rw [accepts, decide_eq_false fun hfree => hfree hc, Bool.false_and]
    · rfl
    · exact hunpaired
  | case5 c rest hunpaired hc ih =>
    rw [accepts, Option.isSome_map, ih, decide_eq_true hc, Bool.true_and]
    exact hunpaired

/-- **What could be the escaped form of a text is read**, and nothing else. -/
theorem isSome_unescape? (g : Grammar) (t : String) :
    (g.unescape? t).isSome = g.accepts t.toList := by
  unfold unescape?
  rw [Option.isSome_map, isSome_decode]

/-- The last of three backslashes has nothing to make a pair with. -/
example : Grammar.url.unescape? "\\\\\\" = none := by decide +kernel

/-- **The texts that can be written** are those that keep to the rules of the grammar. -/
theorem exists_escape_eq_iff {t : String} :
    (∃ s, g.escape s = t) ↔ g.accepts t.toList = true := by
  constructor
  · rintro ⟨s, rfl⟩
    rw [accepts_escape, agrees_self]
  · intro h
    rw [← isSome_unescape?] at h
    obtain ⟨s, hs⟩ := Option.isSome_iff_exists.1 h
    exact ⟨s, escape_of_unescape? hs⟩

/-- **Escaping is exact and can be undone.** For each grammar and all texts: what is written of a
text is read back as that text, and whatever is read was written so. What is read are the texts
whose backslashes all make a pair with a reserved character and that have no reserved character
outside a pair, and they are just the texts that can be written. Texts may be escaped one after the
other, and each reserved character makes a text longer by one unit. -/
theorem escape_unescape (g : Grammar) :
    (∀ s, g.unescape? (g.escape s) = some s) ∧
      (∀ t s, g.unescape? t = some s → g.escape s = t) ∧
      (∀ t, (g.unescape? t).isSome = g.accepts t.toList) ∧
      (∀ t, (∃ s, g.escape s = t) ↔ g.accepts t.toList = true) ∧
      (∀ s t, g.escape (s ++ t) = g.escape s ++ g.escape t) ∧
      ∀ s, Text.units (g.escape s) = Text.units s + s.toList.countP (· ∈ g.reserved) :=
  ⟨g.unescape?_escape, fun _ _ => escape_of_unescape?, g.isSome_unescape?,
    fun _ => exists_escape_eq_iff, g.escape_append, g.units_escape⟩

/-- A destination with a run of backslashes in it, which is read in pairs. -/
theorem escape_unescape_backslashes :
    let t := "a\\\\\\\\\\(b\\)"
    let s := "a\\\\(b)"
    Grammar.url.unescape? t = some s ∧ Grammar.url.escape s = t := by
  intro t s
  have hread : Grammar.url.unescape? t = some s := by decide +kernel
  obtain ⟨-, hwritten, -⟩ := escape_unescape .url
  exact ⟨hread, hwritten t s hread⟩

end ChatMarkup.Grammar

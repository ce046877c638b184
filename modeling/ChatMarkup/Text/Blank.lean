/-!
# White space

Which characters are white space, and the two uses made of them: taking white space off the ends of
a text and taking the first word of a text.

Results:
* `dropEnd_append`, `dropEnd_cons`, `dropEnd_cons_of_neg`: what is dropped, said from the front of a
  list.
* `getLast?_dropEnd`, `dropEnd_eq_self`: what is left ends in nothing that would be dropped, and
  such a list stays as it is.
* `trimmed_trim`, `trim_eq_self`: a trimmed text has no white space at its ends, and such a text
  stays as it is.
* `Trimmed.intercalate_cons`: joined texts are trimmed if the first is and all end visibly.
* `isWord_of_firstWord?`, `firstWord?_of_isWord`: a first word is a word, and of a word it is all.
-/

namespace ChatMarkup.Text

/-- A character with the Unicode property White_Space. -/
def isBlank (c : Char) : Bool :=
  ('\t' ≤ c && c ≤ '\r') || c == ' ' || c == '\u0085' || c == '\u00a0' || c == '\u1680' ||
    ('\u2000' ≤ c && c ≤ '\u200a') || c == '\u2028' || c == '\u2029' || c == '\u202f' ||
    c == '\u205f' || c == '\u3000'

/-- A list without the longest part at its end that satisfies `p` throughout. -/
def dropEnd {α : Type} (p : α → Bool) (xs : List α) : List α :=
  (xs.reverse.dropWhile p).reverse

@[simp] theorem dropEnd_nil {α : Type} (p : α → Bool) : dropEnd p [] = [] := rfl

/-- Nothing is dropped up to an element that does not satisfy `p`. -/
theorem dropEnd_append {α : Type} {p : α → Bool} {xs : List α} {x : α} (hx : xs.getLast? = some x)
    (h : p x = false) (ys : List α) : dropEnd p (xs ++ ys) = xs ++ dropEnd p ys := by
  obtain ⟨init, rfl⟩ := List.getLast?_eq_some_iff.1 hx
  have hstop : (x :: init.reverse).dropWhile p = x :: init.reverse :=
    List.dropWhile_cons_of_neg (by simp [h])
  unfold dropEnd
  rw [List.reverse_append, List.reverse_concat, List.dropWhile_append, hstop]
  split
  · rename_i hnil
    simp [List.isEmpty_iff.1 hnil]
  · simp

/-- An element that does not satisfy `p` stays. -/
theorem dropEnd_cons_of_neg {α : Type} {p : α → Bool} {x : α} (h : p x = false) (xs : List α) :
    dropEnd p (x :: xs) = x :: dropEnd p xs :=
  dropEnd_append (show [x].getLast? = some x from rfl) h xs

/-- An element that satisfies `p` stays if something after it stays. -/
theorem dropEnd_cons {α : Type} {p : α → Bool} {x : α} (h : p x = true) (xs : List α) :
    dropEnd p (x :: xs) = if dropEnd p xs = [] then [] else x :: dropEnd p xs := by
  unfold dropEnd
  rw [List.reverse_cons, List.dropWhile_append]
  by_cases hnil : xs.reverse.dropWhile p = []
  · simp [hnil, h]
  · simp [hnil]

/-- What is left does not end in an element that satisfies `p`. -/
theorem getLast?_dropEnd {α : Type} {p : α → Bool} {xs : List α} {x : α}
    (h : (dropEnd p xs).getLast? = some x) : p x = false := by
  rw [dropEnd, List.getLast?_reverse] at h
  have hhead := List.head?_dropWhile_not p xs.reverse
  rwa [h] at hhead

/-- Nothing is dropped from a list that does not end in an element that satisfies `p`. -/
theorem dropEnd_eq_self {α : Type} {p : α → Bool} {xs : List α}
    (h : ∀ x, xs.getLast? = some x → p x = false) : dropEnd p xs = xs := by
  cases hlast : xs.getLast? with
  | none => rw [List.getLast?_eq_none_iff.1 hlast, dropEnd_nil]
  | some x =>
    have hkeep := dropEnd_append hlast (h x hlast) []
    simpa using hkeep

/-- What is left and what was dropped make up the list. -/
theorem dropEnd_append_takeWhile {α : Type} (p : α → Bool) (xs : List α) :
    dropEnd p xs ++ (xs.reverse.takeWhile p).reverse = xs := by
  rw [dropEnd, ← List.reverse_append, List.takeWhile_append_dropWhile, List.reverse_reverse]

/-- What is left begins as the list did. -/
theorem head?_of_head?_dropEnd {α : Type} {p : α → Bool} {xs : List α} {x : α}
    (h : (dropEnd p xs).head? = some x) : xs.head? = some x := by
  rw [← dropEnd_append_takeWhile p xs, List.head?_append, h]
  rfl

/-- What satisfies `p` throughout is dropped from the end. -/
theorem dropEnd_append_of_pos {α : Type} {p : α → Bool} {ys : List α}
    (h : ∀ y ∈ ys, p y = true) (xs : List α) : dropEnd p (xs ++ ys) = dropEnd p xs := by
  unfold dropEnd
  rw [List.reverse_append, List.dropWhile_append_of_pos fun y hy => h y (List.mem_reverse.1 hy)]

/-- What does not satisfy `p` stays when what does is dropped at both ends. -/
theorem mem_dropEnd_dropWhile {α : Type} {p : α → Bool} {x : α} (h : p x = false) {xs : List α}
    (hx : x ∈ xs) : x ∈ dropEnd p (xs.dropWhile p) := by
  have hstays {ys : List α} (hmem : x ∈ ys) : x ∈ ys.dropWhile p := by
    rw [← List.takeWhile_append_dropWhile (p := p) (l := ys), List.mem_append] at hmem
    refine hmem.resolve_left fun hfirst => ?_
    have hp := List.all_eq_true.1 (List.all_takeWhile (p := p) (l := ys)) x hfirst
    rw [h] at hp
    exact absurd hp nofun
  exact List.mem_reverse.2 (hstays (List.mem_reverse.2 (hstays hx)))

/-! ## Trimming -/

/-- A text without the white space at its two ends. -/
def trim (s : String) : String :=
  String.ofList (dropEnd isBlank (s.toList.dropWhile isBlank))

/-- A text has no white space at its ends. -/
structure Trimmed (s : String) : Prop where
  first : ∀ c, s.toList.head? = some c → isBlank c = false
  last : ∀ c, s.toList.getLast? = some c → isBlank c = false

theorem trimmed_trim (s : String) : Trimmed (trim s) where
  first c h := by
    rw [trim, String.toList_ofList] at h
    have hfirst := List.head?_dropWhile_not isBlank s.toList
    rwa [head?_of_head?_dropEnd h] at hfirst
  last c h := by
    rw [trim, String.toList_ofList] at h
    exact getLast?_dropEnd h

theorem trim_eq_self {s : String} (h : Trimmed s) : trim s = s := by
  have hfirst : s.toList.dropWhile isBlank = s.toList := by
    cases hcs : s.toList with
    | nil => rfl
    | cons c cs =>
      have hc := h.first c (by rw [hcs]; rfl)
      exact List.dropWhile_cons_of_neg (by simp [hc])
  rw [trim, hfirst, dropEnd_eq_self h.last, String.ofList_toList]

theorem trim_eq_self_iff {s : String} : trim s = s ↔ Trimmed s :=
  ⟨fun h => h ▸ trimmed_trim s, trim_eq_self⟩

instance (s : String) : Decidable (Trimmed s) :=
  decidable_of_iff (trim s = s) trim_eq_self_iff

@[simp] theorem trim_trim (s : String) : trim (trim s) = trim s :=
  trim_eq_self (trimmed_trim s)

/-- A text ends in a character that is not white space. -/
def EndsVisibly (s : String) : Prop :=
  ∃ c, s.toList.getLast? = some c ∧ isBlank c = false

theorem EndsVisibly.append {t : String} (h : EndsVisibly t) (s : String) :
    EndsVisibly (s ++ t) := by
  obtain ⟨c, hlast, hc⟩ := h
  refine ⟨c, ?_, hc⟩
  rw [String.toList_append, List.getLast?_append, hlast]
  rfl

theorem EndsVisibly.intercalate {sep : String} {ss : List String} (hne : ss ≠ [])
    (h : ∀ s ∈ ss, EndsVisibly s) : EndsVisibly (sep.intercalate ss) := by
  induction ss with
  | nil => exact absurd rfl hne
  | cons s rest ih =>
    by_cases hnil : rest = []
    · rw [hnil, String.intercalate_singleton]
      exact h s List.mem_cons_self
    · rw [String.intercalate_cons_of_ne_nil hnil]
      exact (ih hnil fun t ht => h t (List.mem_cons_of_mem s ht)).append _

theorem Trimmed.endsVisibly {s : String} (h : Trimmed s) (hne : s ≠ "") : EndsVisibly s := by
  have hlast : s.toList ≠ [] := by simpa using hne
  exact ⟨_, List.getLast?_eq_some_getLast hlast, h.last _ (List.getLast?_eq_some_getLast hlast)⟩

/-- A text is trimmed if it begins as a trimmed one does and ends visibly. -/
theorem Trimmed.append {s t : String} (h : Trimmed s) (hne : s ≠ "") (ht : EndsVisibly (s ++ t)) :
    Trimmed (s ++ t) where
  first c hc := by
    obtain ⟨d, cs, hcs⟩ := List.exists_cons_of_ne_nil (show s.toList ≠ [] by simpa using hne)
    refine h.first c ?_
    rw [String.toList_append, hcs] at hc
    rw [hcs]
    exact hc
  last c hc := by
    obtain ⟨d, hlast, hd⟩ := ht
    rw [hlast] at hc
    exact Option.some.inj hc ▸ hd

/-- Joined texts are trimmed if the first is and all end visibly. -/
theorem Trimmed.intercalate_cons {sep s : String} {rest : List String} (h : Trimmed s)
    (hne : s ≠ "") (hrest : ∀ t ∈ rest, EndsVisibly t) : Trimmed (sep.intercalate (s :: rest)) := by
  by_cases hnil : rest = []
  · rw [hnil, String.intercalate_singleton]
    exact h
  · rw [String.intercalate_cons_of_ne_nil hnil, String.append_assoc]
    exact h.append hne (((EndsVisibly.intercalate hnil hrest).append sep).append s)

/-- White space in front goes. -/
theorem trim_append_left {s : String} (h : ∀ c ∈ s.toList, isBlank c = true) (t : String) :
    trim (s ++ t) = trim t := by
  rw [trim, trim, String.toList_append, List.dropWhile_append_of_pos h]

/-- White space at the end goes. -/
theorem trim_append_right (s : String) {t : String} (h : ∀ c ∈ t.toList, isBlank c = true) :
    trim (s ++ t) = trim s := by
  rw [trim, trim, String.toList_append, List.dropWhile_append]
  split
  · rename_i hnil
    have hblank : (t.toList ++ []).dropWhile isBlank = [] := List.dropWhile_append_of_pos h
    rw [List.append_nil] at hblank
    rw [hblank, List.isEmpty_iff.1 hnil]
  · rw [dropEnd_append_of_pos h]

/-! ## Ends of lines and words -/

/-- A text without the newlines at its end. -/
def dropEndNewlines (s : String) : String :=
  String.ofList (dropEnd (· == '\n') s.toList)

/-- A text without one newline at its end, if it ends in one. -/
def dropEndNewline (s : String) : String :=
  if s.toList.getLast? = some '\n' then String.ofList s.toList.dropLast else s

/-- The first of the words that white space separates in a text. -/
def firstWord? (s : String) : Option String :=
  match (s.toList.dropWhile isBlank).takeWhile (!isBlank ·) with
  | [] => none
  | word => some (String.ofList word)

/-- Whether a text is one word, with no white space anywhere. -/
def isWord (s : String) : Bool :=
  !s.isEmpty && s.toList.all (!isBlank ·)

theorem isWord_of_firstWord? {s word : String} (h : firstWord? s = some word) :
    isWord word = true := by
  unfold firstWord? at h
  split at h
  · exact absurd h nofun
  · rename_i hne
    obtain rfl := Option.some.inj h
    have hall := List.all_takeWhile (p := (!isBlank ·)) (l := s.toList.dropWhile isBlank)
    simpa [isWord, hall] using hne

theorem firstWord?_of_isWord {word : String} (h : isWord word = true) :
    firstWord? word = some word := by
  obtain ⟨hne, hall⟩ := Bool.and_eq_true _ _ ▸ h
  have hvisible : ∀ c ∈ word.toList, (!isBlank c) = true := List.all_eq_true.1 hall
  obtain ⟨c, cs, hcs⟩ := List.exists_cons_of_ne_nil (show word.toList ≠ [] by simpa using hne)
  have hfirst : word.toList.dropWhile isBlank = word.toList := by
    rw [hcs]
    exact List.dropWhile_cons_of_neg (by simpa using hvisible c (hcs ▸ List.mem_cons_self))
  have hword : word.toList.takeWhile (!isBlank ·) = word.toList := by
    have htake : (word.toList ++ []).takeWhile (!isBlank ·) = word.toList ++ [] :=
      List.takeWhile_append_of_pos hvisible
    rwa [List.append_nil] at htake
  rw [firstWord?, hfirst, hword, hcs]
  simp [← hcs]

/-- A text that does not end in a newline has none to lose. -/
theorem dropEndNewlines_eq_self {s : String} (h : s.toList.getLast? ≠ some '\n') :
    dropEndNewlines s = s := by
  have hkeep : dropEnd (· == '\n') s.toList = s.toList := by
    refine dropEnd_eq_self fun c hc => ?_
    have hne : c ≠ '\n' := fun he => h (he ▸ hc)
    simpa using hne
  rw [dropEndNewlines, hkeep, String.ofList_toList]

theorem getLast?_dropEndNewlines (s : String) :
    (dropEndNewlines s).toList.getLast? ≠ some '\n' := by
  intro h
  rw [dropEndNewlines, String.toList_ofList] at h
  exact absurd (getLast?_dropEnd h) (by decide)

/-- One newline goes, and what was before it stays. -/
theorem dropEndNewline_append_newline (s : String) : dropEndNewline (s ++ "\n") = s := by
  have hlist : (s ++ "\n").toList = s.toList ++ ['\n'] := by simp
  simp [dropEndNewline, hlist]

end ChatMarkup.Text

import ChatMarkup.Toml.Document

/-!
# Readers leave an end of their text

Each reader takes something off the front of a text, so what it leaves is an end of the text, and a
line or an element takes at least one character. Where lists of them are read, the rest is compared
with the whole before reading goes on; the comparison never fails, so nothing is refused for it.

Results:
* `leavesEnd_value?`: values leave an end of the text, however deep they are. It is an induction on
  the depth, with a lemma for each reader that a value is made of.
* `length_lt_of_line?`: a line leaves less than the text.
* `lines?_of_line?`, `elements?_of_element`: lines and elements are read one after the other.
-/

namespace ChatMarkup.Toml

variable {α β : Type}

/-- What a reader leaves of a text is an end of the text. -/
def LeavesEnd (reader : Reader α) : Prop :=
  ∀ {cs left : List Char} {a : α}, reader cs = some (a, left) → left <:+ cs

/-- A reader whose value is changed afterwards leaves what it left before. -/
theorem exists_of_map_eq_some {read : Option (α × List Char)} {f : α × List Char → β × List Char}
    {b : β} {left : List Char} (h : read.map f = some (b, left)) (hf : ∀ p, (f p).2 = p.2) :
    ∃ a, read = some (a, left) := by
  obtain ⟨⟨a, rest⟩, rfl, hfa⟩ := Option.map_eq_some_iff.1 h
  have hrest := hf (a, rest)
  rw [hfa] at hrest
  exact ⟨a, by rw [show left = rest from hrest]⟩

/-! ## Between values -/

theorem skipSpaces_suffix (cs : List Char) : skipSpaces cs <:+ cs :=
  List.dropWhile_suffix _

theorem skipFiller_suffix {inComment : Bool} {cs left : List Char}
    (h : skipFiller inComment cs = some left) : left <:+ cs := by
  fun_induction skipFiller inComment cs with
  | case1 =>
    cases h
    exact ⟨[], rfl⟩
  | case3 _ rest ih => exact ((ih h).trans (List.suffix_cons _ _)).trans (List.suffix_cons _ _)
  | case5 => cases h
  | case8 =>
    cases h
    exact ⟨[], rfl⟩
  | case2 _ rest ih | case4 _ rest _ _ _ ih | case6 _ _ rest _ _ _ _ ih | case7 _ rest _ _ _ _ ih =>
    exact (ih h).trans (List.suffix_cons _ _)

/-- An expected character is there, and is taken off. -/
theorem eq_cons_of_expect? {c : Char} {cs left : List Char} (h : expect? c cs = some left) :
    cs = c :: left := by
  cases cs with
  | nil => cases h
  | cons d cs =>
    by_cases hd : d = c
    · rw [expect?, if_pos hd] at h
      cases h
      rw [hd]
    · rw [expect?, if_neg hd] at h
      cases h

theorem lineEnd?_suffix {cs left : List Char} (h : lineEnd? cs = some left) : left <:+ cs := by
  refine List.IsSuffix.trans ?_ (skipSpaces_suffix cs)
  unfold lineEnd? at h
  split at h
  · cases h
    exact List.nil_suffix
  · rename_i rest hrest
    cases h
    rw [hrest]
    exact List.suffix_cons _ _
  · rename_i rest hrest
    cases h
    rw [hrest]
    exact (List.suffix_cons _ _).trans (List.suffix_cons _ _)
  · rename_i rest hrest
    cases h
    exact ⟨[], hrest.symm⟩
  · cases h

/-! ## Strings -/

namespace Quote

theorem leavesEnd_inside? (quote : Quote) : LeavesEnd quote.inside? := by
  intro cs left inside h
  fun_induction quote.inside? cs generalizing left inside with
  | case1 => cases h
  | case2 =>
    cases h
    exact List.suffix_cons _ _
  | case3 => cases h
  | case4 c hmark hshields d rest ih =>
    obtain ⟨_, hread⟩ := exists_of_map_eq_some h fun _ => rfl
    exact ((ih hread).trans (List.suffix_cons _ _)).trans (List.suffix_cons _ _)
  | case5 c rest hmark hshields ih =>
    obtain ⟨_, hread⟩ := exists_of_map_eq_some h fun _ => rfl
    exact (ih hread).trans (List.suffix_cons _ _)

theorem leavesEnd_linesInside? (quote : Quote) : LeavesEnd quote.linesInside? := by
  intro cs left inside h
  fun_induction quote.linesInside? cs generalizing left inside with
  | case1 => cases h
  | case2 =>
    cases h
    exact (List.drop_suffix _ _).trans (List.suffix_cons _ _)
  | case3 => cases h
  | case4 c hshields d rest hmark ih =>
    obtain ⟨_, hread⟩ := exists_of_map_eq_some h fun _ => rfl
    exact ((ih hread).trans (List.suffix_cons _ _)).trans (List.suffix_cons _ _)
  | case5 c rest hmark hshields ih =>
    obtain ⟨_, hread⟩ := exists_of_map_eq_some h fun _ => rfl
    exact (ih hread).trans (List.suffix_cons _ _)

theorem leavesEnd_lineString? (quote : Quote) : LeavesEnd quote.lineString? := by
  intro cs left s h
  obtain ⟨⟨inside, rest⟩, hinside, hdecode⟩ := Option.bind_eq_some_iff.1 h
  obtain ⟨decoded, -, hleft⟩ := Option.bind_eq_some_iff.1 hdecode
  cases hleft
  exact quote.leavesEnd_inside? hinside

theorem dropLineEnd_suffix (cs : List Char) : dropLineEnd cs <:+ cs := by
  unfold dropLineEnd
  split
  · exact List.suffix_cons _ _
  · exact (List.suffix_cons _ _).trans (List.suffix_cons _ _)
  · exact ⟨[], rfl⟩

theorem leavesEnd_string? (quote : Quote) : LeavesEnd quote.string? := by
  intro cs left s h
  unfold string? at h
  split at h
  · obtain ⟨⟨inside, rest⟩, hinside, hdecode⟩ := Option.bind_eq_some_iff.1 h
    obtain ⟨decoded, -, hleft⟩ := Option.bind_eq_some_iff.1 hdecode
    cases hleft
    exact (quote.leavesEnd_linesInside? hinside).trans
      ((dropLineEnd_suffix _).trans (List.drop_suffix _ _))
  · exact quote.leavesEnd_lineString? h

end Quote

/-! ## Keys and values -/

theorem leavesEnd_name? : LeavesEnd name? := by
  intro cs left name h
  unfold name? at h
  split at h
  · exact (Quote.double.leavesEnd_lineString? h).trans (List.suffix_cons _ _)
  · exact (Quote.single.leavesEnd_lineString? h).trans (List.suffix_cons _ _)
  · split at h
    · cases h
    · cases h
      exact List.drop_suffix _ _

theorem leavesEnd_key? (count : Nat) : LeavesEnd (key? count) := by
  intro cs left key h
  fun_induction key? count cs generalizing left key with
  | case1 => cases h
  | case2 => cases h
  | case3 count cs name rest hname more hmore ih =>
    obtain ⟨_, hread⟩ := exists_of_map_eq_some h fun _ => rfl
    have hdot : more <:+ rest := (hmore ▸ List.suffix_cons '.' more).trans (skipSpaces_suffix rest)
    exact (ih hread).trans ((skipSpaces_suffix more).trans (hdot.trans (leavesEnd_name? hname)))
  | case4 count cs name rest hname =>
    cases h
    exact (skipSpaces_suffix rest).trans (leavesEnd_name? hname)

theorem leavesEnd_word? : LeavesEnd word? := by
  intro cs left v h
  obtain ⟨read, -, hleft⟩ := Option.map_eq_some_iff.1 h
  cases hleft
  exact List.drop_suffix _ _

theorem leavesEnd_elements? {close : Char} {element : Reader α} (helement : LeavesEnd element) :
    LeavesEnd (elements? close element) := by
  intro cs left as h
  fun_induction elements? close element cs generalizing left as with
  | case1 | case2 | case4 | case5 | case6 | case9 => cases h
  | case3 cs rest hcs =>
    cases h
    exact (List.suffix_cons _ _).trans (skipFiller_suffix hcs)
  | case7 cs c rest hcs hclose a middle helem last hlast =>
    cases h
    exact (List.suffix_cons _ _).trans
      ((skipFiller_suffix hlast).trans ((helement helem).trans (skipFiller_suffix hcs)))
  | case8 cs c rest hcs hclose a middle helem d last hlast hd hcomma ih =>
    obtain ⟨_, hread⟩ := exists_of_map_eq_some h fun _ => rfl
    exact (ih hread).trans ((List.suffix_cons _ _).trans
      ((skipFiller_suffix hlast).trans ((helement helem).trans (skipFiller_suffix hcs))))

/-- A key and its value leave less than the text, since there is a sign between them. -/
theorem length_lt_of_pair? {skip? : List Char → Option (List Char)} {value : Reader Value}
    (hskip : ∀ {cs left : List Char}, skip? cs = some left → left <:+ cs)
    (hvalue : LeavesEnd value) {cs left : List Char} {entry : Key × Value}
    (h : pair? skip? value cs = some (entry, left)) : left <:+ cs ∧ left.length < cs.length := by
  obtain ⟨⟨key, afterKey⟩, hkey, h⟩ := Option.bind_eq_some_iff.1 h
  obtain ⟨beforeSign, hbefore, h⟩ := Option.bind_eq_some_iff.1 h
  obtain ⟨afterSign, hsign, h⟩ := Option.bind_eq_some_iff.1 h
  obtain ⟨beforeValue, hafter, h⟩ := Option.bind_eq_some_iff.1 h
  obtain ⟨⟨v, rest⟩, hv, hleft⟩ := Option.bind_eq_some_iff.1 h
  cases hleft
  have hrest : left <:+ afterSign := (hvalue hv).trans (hskip hafter)
  have hcs : '=' :: afterSign <:+ cs :=
    eq_cons_of_expect? hsign ▸ (hskip hbefore).trans (leavesEnd_key? maxNames hkey)
  refine ⟨hrest.trans ((List.suffix_cons _ _).trans hcs), ?_⟩
  have hlength := hcs.length_le
  rw [List.length_cons] at hlength
  exact Nat.lt_of_le_of_lt hrest.length_le hlength

theorem leavesEnd_value? (depth : Nat) : LeavesEnd (value? depth) := by
  intro cs left v h
  unfold value? at h
  split at h
  · obtain ⟨_, hread⟩ := exists_of_map_eq_some h fun _ => rfl
    exact (Quote.double.leavesEnd_string? hread).trans (List.suffix_cons _ _)
  · obtain ⟨_, hread⟩ := exists_of_map_eq_some h fun _ => rfl
    exact (Quote.single.leavesEnd_string? hread).trans (List.suffix_cons _ _)
  · cases depth with
    | zero => cases h
    | succ depth =>
      obtain ⟨_, hread⟩ := exists_of_map_eq_some h fun _ => rfl
      exact (leavesEnd_elements? (leavesEnd_value? depth) hread).trans (List.suffix_cons _ _)
  · cases depth with
    | zero => cases h
    | succ depth =>
      obtain ⟨⟨entries, rest⟩, hread, h⟩ := Option.bind_eq_some_iff.1 h
      obtain ⟨table, -, hleft⟩ := Option.bind_eq_some_iff.1 h
      cases hleft
      have hpair : LeavesEnd (pair? (skipFiller false) (value? depth)) := fun h =>
        (length_lt_of_pair? skipFiller_suffix (leavesEnd_value? depth) h).1
      exact (leavesEnd_elements? hpair hread).trans (List.suffix_cons _ _)
  · exact leavesEnd_word? h

/-! ## Lines -/

/-- What a header leaves is an end of what follows its first bracket. -/
theorem suffix_of_header {cs left more rest : List Char} {key : Key}
    (hkey : key? maxNames (skipSpaces cs) = some (key, left))
    (hbracket : expect? ']' (skipSpaces left) = some more) (hrest : rest <:+ more) : rest <:+ cs :=
  have hmore : more <:+ skipSpaces left :=
    eq_cons_of_expect? hbracket ▸ List.suffix_cons ']' more
  hrest.trans (hmore.trans ((skipSpaces_suffix left).trans
    ((leavesEnd_key? maxNames hkey).trans (skipSpaces_suffix cs))))

/-- A line leaves less than the text. -/
theorem length_lt_of_line? {cs left : List Char} {line : Line} (h : line? cs = some (line, left)) :
    left.length < cs.length := by
  unfold line? at h
  split at h
  · rename_i rest
    obtain ⟨⟨key, afterKey⟩, hkey, h⟩ := Option.bind_eq_some_iff.1 h
    obtain ⟨more, hfirst, h⟩ := Option.bind_eq_some_iff.1 h
    obtain ⟨last, hsecond, hleft⟩ := Option.bind_eq_some_iff.1 h
    cases hleft
    have hleft : left <:+ more := eq_cons_of_expect? hsecond ▸ List.suffix_cons ']' left
    have hlength := (suffix_of_header hkey hfirst hleft).length_le
    simp only [List.length_cons]
    omega
  · rename_i rest _
    obtain ⟨⟨key, afterKey⟩, hkey, h⟩ := Option.bind_eq_some_iff.1 h
    obtain ⟨more, hbracket, hleft⟩ := Option.bind_eq_some_iff.1 h
    cases hleft
    have hlength := (suffix_of_header hkey hbracket ⟨[], rfl⟩).length_le
    rw [List.length_cons]
    omega
  · obtain ⟨⟨⟨key, v⟩, rest⟩, hpair, hleft⟩ := Option.bind_eq_some_iff.1 h
    cases hleft
    have hskip : ∀ {cs left : List Char}, some (skipSpaces cs) = some left → left <:+ cs := by
      rintro cs left ⟨⟩
      exact skipSpaces_suffix cs
    exact (length_lt_of_pair? hskip (leavesEnd_value? maxDepth) hpair).2

/-- **Lines are read one after the other**: each leaves less of the text for those after it. -/
theorem lines?_of_line? {cs rest left more : List Char} {c : Char} {line : Line}
    (hcs : skipFiller false cs = some (c :: rest)) (hline : line? (c :: rest) = some (line, left))
    (hend : lineEnd? left = some more) : lines? cs = (lines? more).map (line :: ·) := by
  have hlength : more.length < cs.length :=
    calc more.length
      _ ≤ left.length := (lineEnd?_suffix hend).length_le
      _ < (c :: rest).length := length_lt_of_line? hline
      _ ≤ cs.length := (skipFiller_suffix hcs).length_le
  rw [lines?.eq_def]
  simp only [hcs, hline, hend, if_pos hlength]

/-- **Elements are read one after the other**: each leaves less of the text for those after it. -/
theorem elements?_of_element {close c : Char} {element : Reader α} (helement : LeavesEnd element)
    {cs rest left more : List Char} {a : α} (hcs : skipFiller false cs = some (c :: rest))
    (hc : c ≠ close) (ha : element (c :: rest) = some (a, left))
    (hcomma : skipFiller false left = some (',' :: more)) (hclose : close ≠ ',') :
    elements? close element cs =
      (elements? close element more).map fun read => (a :: read.1, read.2) := by
  have hlength : more.length < cs.length :=
    calc more.length
      _ < (',' :: more).length := Nat.lt_succ_self _
      _ ≤ left.length := (skipFiller_suffix hcomma).length_le
      _ ≤ (c :: rest).length := (helement ha).length_le
      _ ≤ cs.length := (skipFiller_suffix hcs).length_le
  rw [elements?.eq_def]
  simp only [hcs, if_neg hc, ha, hcomma, if_neg hclose.symm]
  simp [hlength]

end ChatMarkup.Toml

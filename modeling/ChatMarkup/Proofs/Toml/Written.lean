import ChatMarkup.Proofs.Toml.Progress

/-!
# Written lines of TOML

A text with settings, as a program writes it: one name with its text, or one header, on each line.
Between quotation marks the two characters that mean something there get a backslash, and control
characters are written by their number, so every text can be written. Such lines are read back one
by one, whatever comes after them.

Results:
* `string?_written`: a text between quotation marks is read back, all characters included.
* `line?_entryLine`, `line?_headerLine`: a line with an entry or a header is read back.
* `PlainLine.lines?_flatMap_written`: the lines of a text written line by line are those written.

Out of scope: names that need quotes, dotted keys, and values other than texts. The reader takes all
of these; no setting of a style needs them.
-/

namespace ChatMarkup.Toml

/-! ## Strings -/

/-- How a character is written between quotation marks: with a backslash if it is one of the two
characters that mean something there, and by its number if it is a control character. -/
def writtenChar (c : Char) : List Char :=
  if c = '\x22' || c = '\\' then ['\\', c]
  else if isTextual c then [c]
  else ['\\', 'u', '0', '0', Nat.digitChar (c.toNat / 16), Nat.digitChar (c.toNat % 16)]

/-- How a text is written between quotation marks. -/
def written (s : String) : List Char :=
  s.toList.flatMap writtenChar

/-- The ways in which a character is written. -/
theorem writtenChar_cases (c : Char) :
    ((c = '\x22' ∨ c = '\\') ∧ writtenChar c = ['\\', c]) ∨
      (c ≠ '\x22' ∧ c ≠ '\\' ∧ isTextual c = true ∧ writtenChar c = [c]) ∨
      (c.toNat < 0x80 ∧ writtenChar c =
        ['\\', 'u', '0', '0', Nat.digitChar (c.toNat / 16), Nat.digitChar (c.toNat % 16)]) := by
  unfold writtenChar
  by_cases hmark : c = '\x22' ∨ c = '\\'
  · exact .inl ⟨hmark, if_pos (by simpa using hmark)⟩
  have hplain : ¬ (c = '\x22' || c = '\\') = true := by simpa using hmark
  obtain ⟨hquote, hbackslash⟩ := not_or.1 hmark
  by_cases htextual : isTextual c = true
  · exact .inr (.inl ⟨hquote, hbackslash, htextual, by rw [if_neg hplain, if_pos htextual]⟩)
  · refine .inr (.inr ⟨?_, by rw [if_neg hplain, if_neg htextual]⟩)
    simp only [isTextual, Bool.or_eq_true, Bool.and_eq_true, decide_eq_true_eq,
      bne_iff_ne] at htextual
    omega

theorem hexDigit?_digitChar {d : Nat} (h : d < 16) : hexDigit? (Nat.digitChar d) = some d :=
  (show ∀ d : Fin 16, hexDigit? (Nat.digitChar d) = some d.val by decide) ⟨d, h⟩

theorem digitChar_ne {d : Nat} (h : d < 16) : Nat.digitChar d ≠ '\x22' ∧ Nat.digitChar d ≠ '\\' :=
  (show ∀ d : Fin 16, Nat.digitChar d ≠ '\x22' ∧ Nat.digitChar d ≠ '\\' by decide) ⟨d, h⟩

namespace Quote

section Inside

variable {cs inside left : List Char}

theorem inside?_cons_of_plain {c : Char} (hquote : c ≠ '\x22') (hbackslash : c ≠ '\\')
    (h : double.inside? cs = some (inside, left)) :
    double.inside? (c :: cs) = some (c :: inside, left) := by
  have hshields : double.shields c = false := by simp [shields, hbackslash]
  simp [inside?.eq_def double (c :: cs), char, hquote, hshields, h]

theorem inside?_cons_of_escape (c : Char) (h : double.inside? cs = some (inside, left)) :
    double.inside? ('\\' :: c :: cs) = some ('\\' :: c :: inside, left) := by
  simp [inside?.eq_def double ('\\' :: c :: cs), char, shields, h]

/-- A written character does not end the string. -/
theorem inside?_writtenChar_append (c : Char) (h : double.inside? cs = some (inside, left)) :
    double.inside? (writtenChar c ++ cs) = some (writtenChar c ++ inside, left) := by
  rcases writtenChar_cases c with
    ⟨-, hc⟩ | ⟨hquote, hbackslash, -, hc⟩ | ⟨hcode, hc⟩
  · rw [hc]
    exact inside?_cons_of_escape c h
  · rw [hc]
    exact inside?_cons_of_plain hquote hbackslash h
  · rw [hc]
    have hfirst := digitChar_ne (show c.toNat / 16 < 16 by omega)
    have hsecond := digitChar_ne (show c.toNat % 16 < 16 by omega)
    have hdigits := inside?_cons_of_plain hfirst.1 hfirst.2
      (inside?_cons_of_plain hsecond.1 hsecond.2 h)
    exact inside?_cons_of_escape 'u' (inside?_cons_of_plain (by decide) (by decide)
      (inside?_cons_of_plain (by decide) (by decide) hdigits))

/-- A written text ends with the mark after it. -/
theorem inside?_written_append (s : String) (rest : List Char) :
    double.inside? (written s ++ '\x22' :: rest) = some (written s, rest) := by
  unfold written
  induction s.toList with
  | nil => simp [inside?.eq_def double ('\x22' :: rest), char]
  | cons c cs ih =>
    rw [List.flatMap_cons, List.append_assoc]
    exact inside?_writtenChar_append c ih

end Inside

end Quote

section Unescape

variable {cs ds : List Char}

theorem unescape?_cons_of_plain {c : Char} (hbackslash : c ≠ '\\') (htextual : isTextual c = true)
    (h : unescape? false cs = some ds) : unescape? false (c :: cs) = some (c :: ds) := by
  have hnewline : c ≠ '\n' := by rintro rfl; cases htextual
  have hreturn : c ≠ '\x0d' := by rintro rfl; cases htextual
  simp [unescape?.eq_def false (c :: cs), hreturn, htextual, h]

theorem unescape?_cons_of_letter {c d : Char} (hdigits : escapeDigits? c = none)
    (hc : shortEscape? c = some d) (h : unescape? false cs = some ds) :
    unescape? false ('\\' :: c :: cs) = some (d :: ds) := by
  simp [unescape?.eq_def false ('\\' :: c :: cs), hdigits, hc, h]

theorem unescape?_cons_of_code {c d : Char} {count code : Nat}
    (hdigits : escapeDigits? c = some count) (hcode : hexNumber? count cs = some code)
    (hd : charOf? code = some d) (h : unescape? false (cs.drop count) = some ds) :
    unescape? false ('\\' :: c :: cs) = some (d :: ds) := by
  simp [unescape?.eq_def false ('\\' :: c :: cs), hdigits, hcode, hd, h]

theorem hexNumber?_control {n : Nat} (h : n < 0x80) (cs : List Char) :
    hexNumber? 4 ('0' :: '0' :: Nat.digitChar (n / 16) :: Nat.digitChar (n % 16) :: cs) =
      some n := by
  have hfirst := hexDigit?_digitChar (show n / 16 < 16 by omega)
  have hsecond := hexDigit?_digitChar (show n % 16 < 16 by omega)
  have hzero : hexDigit? '0' = some 0 := rfl
  simp [hexNumber?, hzero, hfirst, hsecond]
  omega

theorem charOf?_toNat (c : Char) : charOf? c.toNat = some c := by
  have hvalid : c.toNat.isValidChar := c.valid
  rw [charOf?, dif_pos hvalid]
  rfl

/-- **A written character, read before any others, is the character.** -/
theorem unescape?_writtenChar_append (c : Char) (h : unescape? false cs = some ds) :
    unescape? false (writtenChar c ++ cs) = some (c :: ds) := by
  rcases writtenChar_cases c with
    ⟨hmark, hc⟩ | ⟨-, hbackslash, htextual, hc⟩ | ⟨hcode, hc⟩
  · rw [hc]
    rcases hmark with rfl | rfl
    · exact unescape?_cons_of_letter rfl rfl h
    · exact unescape?_cons_of_letter rfl rfl h
  · rw [hc]
    exact unescape?_cons_of_plain hbackslash htextual h
  · rw [hc]
    exact unescape?_cons_of_code rfl (hexNumber?_control hcode cs) (charOf?_toNat c) h

/-- **A written text, read back, is the text.** -/
theorem unescape?_written (s : String) : unescape? false (written s) = some s.toList := by
  unfold written
  induction s.toList with
  | nil => rw [List.flatMap_nil, unescape?]
  | cons c cs ih =>
    rw [List.flatMap_cons]
    exact unescape?_writtenChar_append c ih

end Unescape

/-- A written text between quotation marks does not begin a string of several lines. -/
theorem not_all_take_two_written (s : String) {rest : List Char}
    (hrest : rest.head? ≠ some '\x22') :
    ¬ ((((written s ++ '\x22' :: rest).take 2).length = 2 &&
      ((written s ++ '\x22' :: rest).take 2).all (· == Quote.double.char)) = true) := by
  intro h
  simp only [Bool.and_eq_true, decide_eq_true_eq, List.all_eq_true, beq_iff_eq] at h
  obtain ⟨hlength, hall⟩ := h
  unfold written at hlength hall
  cases hs : s.toList with
  | nil =>
    rw [hs, List.flatMap_nil, List.nil_append] at hlength hall
    cases rest with
    | nil => cases hlength
    | cons c rest => exact hrest (congrArg some (hall c (by simp)))
  | cons c cs =>
    rw [hs, List.flatMap_cons] at hall
    rcases writtenChar_cases c with ⟨-, hc⟩ | ⟨hquote, -, -, hc⟩ | ⟨-, hc⟩
    · rw [hc] at hall
      exact absurd (hall '\\' (by simp)) (by decide)
    · rw [hc] at hall
      exact hquote (hall c (by simp))
    · rw [hc] at hall
      exact absurd (hall '\\' (by simp)) (by decide)

/-- **A written text between quotation marks is read as the text.** -/
theorem string?_written (s : String) {rest : List Char} (hrest : rest.head? ≠ some '\x22') :
    Quote.double.string? (written s ++ '\x22' :: rest) = some (s, rest) := by
  rw [Quote.string?, if_neg (not_all_take_two_written s hrest), Quote.lineString?,
    Quote.inside?_written_append]
  show (Quote.double.decode? false (written s)).bind _ = _
  rw [Quote.decode?, unescape?_written]
  show some (String.ofList s.toList, rest) = _
  rw [String.ofList_toList]

/-! ## Names and lines -/

theorem ne_of_isNameChar {c d : Char} (hc : isNameChar c = true) (hd : isNameChar d = false) :
    c ≠ d := by
  rintro rfl
  rw [hc] at hd
  cases hd

/-- A name that can stand without quotes. -/
def IsBare (name : String) : Prop :=
  name ≠ "" ∧ name.toList.all isNameChar = true

instance (name : String) : Decidable (IsBare name) :=
  inferInstanceAs (Decidable (_ ∧ _))

/-- A bare name has a first character, and it is a character of a name. -/
theorem IsBare.exists_cons {name : String} (h : IsBare name) :
    ∃ c cs, name.toList = c :: cs ∧ isNameChar c = true := by
  obtain ⟨c, cs, hcs⟩ := List.exists_cons_of_ne_nil (show name.toList ≠ [] by simpa using h.1)
  exact ⟨c, cs, hcs, List.all_eq_true.1 h.2 c (hcs ▸ List.mem_cons_self)⟩

theorem name?_append {name : String} (hname : IsBare name) {d : Char}
    (hd : isNameChar d = false) (rest : List Char) :
    name? (name.toList ++ d :: rest) = some (name, d :: rest) := by
  have htake : (name.toList ++ d :: rest).takeWhile isNameChar = name.toList := by
    rw [List.takeWhile_append_of_pos (List.all_eq_true.1 hname.2),
      List.takeWhile_cons_of_neg (by simp [hd]), List.append_nil]
  have hstring : String.ofList name.toList = name := String.ofList_toList
  obtain ⟨c, cs, hcs, hc⟩ := hname.exists_cons
  have hdouble : c ≠ '\x22' := ne_of_isNameChar hc rfl
  have hsingle : c ≠ '\x27' := ne_of_isNameChar hc rfl
  rw [hcs] at htake hstring ⊢
  rw [List.cons_append] at htake ⊢
  simp [name?, hdouble, hsingle, htake, hstring]

/-- A key of one bare name. -/
theorem key?_append {name : String} (hname : IsBare name) {d : Char}
    (hd : isNameChar d = false) {rest left : List Char} (hleft : skipSpaces (d :: rest) = left)
    (hdot : left.head? ≠ some '.') :
    key? maxNames (name.toList ++ d :: rest) = some (⟨[], name⟩, left) := by
  unfold maxNames key?
  simp only [name?_append hname hd, hleft]
  cases left with
  | nil => rfl
  | cons c left =>
    split
    · rename_i hcons
      cases hcons
      exact absurd rfl hdot
    · rfl

/-- A line that gives a name a text. -/
def entryLine (name text : String) : List Char :=
  name.toList ++ ' ' :: '=' :: ' ' :: '\x22' :: (written text ++ ['\x22', '\n'])

/-- A line that begins a table. -/
def headerLine (name : String) : List Char :=
  '[' :: (name.toList ++ [']', '\n'])

/-- A text between quotation marks is a value. -/
theorem value?_written (depth : Nat) (text : String) {rest : List Char}
    (hrest : rest.head? ≠ some '\x22') :
    value? depth ('\x22' :: (written text ++ '\x22' :: rest)) = some (.string text, rest) := by
  rw [value?.eq_def]
  simp [string?_written text hrest]

theorem line?_of_pair? {c : Char} (hc : c ≠ '[') {cs left : List Char} {key : Key} {v : Value}
    (h : pair? (fun cs => some (skipSpaces cs)) (value? maxDepth) (c :: cs) =
      some ((key, v), left)) :
    line? (c :: cs) = some (.entry key v, left) := by
  simp [line?, hc, h]

theorem line?_entryLine {name : String} (hname : IsBare name) (text : String) (rest : List Char) :
    line? (entryLine name text ++ rest) =
      some (.entry ⟨[], name⟩ (.string text), '\n' :: rest) := by
  have hkey := @key?_append name hname ' ' (by decide)
    ('=' :: ' ' :: '\x22' :: (written text ++ '\x22' :: '\n' :: rest)) _ rfl
    (by simp [skipSpaces, isSpace])
  have hvalue := @value?_written maxDepth text ('\n' :: rest) (by simp)
  have hpair : pair? (fun cs => some (skipSpaces cs)) (value? maxDepth)
      (entryLine name text ++ rest) = some ((⟨[], name⟩, .string text), '\n' :: rest) := by
    simp only [entryLine, List.append_assoc, List.cons_append, List.nil_append]
    simp [pair?, hkey, expect?, skipSpaces, isSpace, hvalue]
  obtain ⟨c, cs, hcs, hc⟩ := hname.exists_cons
  have hbracket : c ≠ '[' := ne_of_isNameChar hc rfl
  rw [entryLine, hcs] at hpair ⊢
  exact line?_of_pair? hbracket hpair

/-- A character of a name is no blank. -/
theorem skipSpaces_cons_of_isNameChar {c : Char} (hc : isNameChar c = true) (cs : List Char) :
    skipSpaces (c :: cs) = c :: cs := by
  have hspace : c ≠ ' ' := ne_of_isNameChar hc rfl
  have htab : c ≠ '\t' := ne_of_isNameChar hc rfl
  simp [skipSpaces, isSpace, hspace, htab]

theorem line?_of_key? {c : Char} (hc : c ≠ '[') {cs left rest : List Char} {key : Key}
    (h : key? maxNames (skipSpaces (c :: cs)) = some (key, left))
    (hleft : skipSpaces left = ']' :: rest) :
    line? ('[' :: c :: cs) = some (.table key, rest) := by
  simp [line?, hc, h, hleft, expect?]

theorem line?_headerLine {name : String} (hname : IsBare name) (rest : List Char) :
    line? (headerLine name ++ rest) = some (.table ⟨[], name⟩, '\n' :: rest) := by
  have hend : skipSpaces (']' :: '\n' :: rest) = ']' :: '\n' :: rest := by
    simp [skipSpaces, isSpace]
  have hkey := @key?_append name hname ']' (by decide) ('\n' :: rest) _ hend (by simp)
  obtain ⟨c, cs, hcs, hc⟩ := hname.exists_cons
  have hbracket : c ≠ '[' := ne_of_isNameChar hc rfl
  simp only [headerLine, List.cons_append, List.append_assoc, List.nil_append]
  rw [hcs, List.cons_append] at hkey ⊢
  exact line?_of_key? hbracket (by rw [skipSpaces_cons_of_isNameChar hc, hkey]) hend

/-! ## Texts of lines -/

/-- A line of a plain text: a name with its text, or the header of a table. -/
inductive PlainLine
  | entry (name text : String)
  | table (name : String)

namespace PlainLine

/-- The name on a line. -/
def name : PlainLine → String
  | entry name _ => name
  | table name => name

/-- What a line says. -/
def toLine : PlainLine → Line
  | entry name text => .entry ⟨[], name⟩ (.string text)
  | table name => .table ⟨[], name⟩

/-- How a line is written. -/
def written : PlainLine → List Char
  | entry name text => entryLine name text
  | table name => headerLine name

theorem line?_written_append {line : PlainLine} (h : IsBare line.name) (rest : List Char) :
    line? (line.written ++ rest) = some (line.toLine, '\n' :: rest) := by
  cases line with
  | entry name text => exact line?_entryLine h text rest
  | table name => exact line?_headerLine h rest

/-- A line begins with the bracket of a header or with a character of a name. -/
theorem exists_written_eq_cons {line : PlainLine} (h : IsBare line.name) :
    ∃ c cs, line.written = c :: cs ∧ (c = '[' ∨ isNameChar c = true) := by
  cases line with
  | entry name text =>
    obtain ⟨c, cs, hcs, hc⟩ := IsBare.exists_cons h
    have hname : name.toList = c :: cs := hcs
    exact ⟨c, cs ++ _, by rw [written, entryLine, hname]; rfl, .inr hc⟩
  | table name => exact ⟨'[', _, rfl, .inl rfl⟩

/-- Nothing is skipped before a line. -/
theorem skipFiller_written_append {line : PlainLine} (h : IsBare line.name) (rest : List Char) :
    skipFiller false (line.written ++ rest) = some (line.written ++ rest) := by
  obtain ⟨c, cs, hcs, hc⟩ := exists_written_eq_cons h
  have hne : ∀ d : Char, '[' ≠ d → isNameChar d = false → c ≠ d := by
    intro d hbracket hd
    rcases hc with rfl | hc
    · exact hbracket
    · exact ne_of_isNameChar hc hd
  have hnewline := hne '\n' (by decide) (by decide)
  have hreturn := hne '\x0d' (by decide) (by decide)
  have hspace := hne ' ' (by decide) (by decide)
  have htab := hne '\t' (by decide) (by decide)
  have hcomment := hne '#' (by decide) (by decide)
  rw [hcs, List.cons_append, skipFiller, if_neg (by simp), if_neg (by simp [isSpace, hspace, htab]),
    if_neg hcomment]
  · exact hnewline
  · rintro _ hc -
    exact hreturn hc

theorem lines?_written_append {line : PlainLine} (h : IsBare line.name) {rest : List Char}
    {lines : List Line} (hrest : lines? rest = some lines) :
    lines? (line.written ++ rest) = some (line.toLine :: lines) := by
  obtain ⟨c, cs, hcs, -⟩ := exists_written_eq_cons h
  have hskip := skipFiller_written_append h rest
  have hline := line?_written_append h rest
  have hend : lineEnd? ('\n' :: rest) = some rest := by
    simp [lineEnd?, skipSpaces, isSpace]
  rw [hcs, List.cons_append] at hskip hline ⊢
  rw [lines?_of_line? hskip hline hend, hrest, Option.map_some]

/-- **The lines of a text written line by line are the lines written.** -/
theorem lines?_flatMap_written {lines : List PlainLine} (h : ∀ line ∈ lines, IsBare line.name) :
    lines? (lines.flatMap written) = some (lines.map toLine) := by
  induction lines with
  | nil => rw [List.flatMap_nil, lines?.eq_def]; rfl
  | cons line lines ih =>
    rw [List.forall_mem_cons] at h
    rw [List.flatMap_cons, List.map_cons]
    exact lines?_written_append h.1 (ih h.2)

end PlainLine

end ChatMarkup.Toml

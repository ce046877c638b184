import ChatMarkup.Proofs.Dialect.Lexemes
import Mathlib.Data.List.TakeWhile

/-!
# The marks of quotes

A bare `>` means a quote only at the start of a line. Whether the marks of a text stand there is
found out from its lexemes, one after the other, with one bit to remember: whether a line begins.

A text is quoted when it is finished already, so its own marks, if it has any, get another one in
front of them and do not begin their lines any more.

Results:
* `atLineStart_of_marksLead`: what `marksLead` says of the text before a mark.
* `marksLead_append`: the marks of texts one after the other.
* `marksLead_quote_iff`: the marks of a quoted text lead just if the text had no marks.
* `LineMarked.append_line`, `LineMarked.trim`: lines may be put together and trimmed.
* `LineMarked.item`: something may stand in front of a line that does not begin with a mark.
-/

namespace ChatMarkup

/-- A line begins after the characters. -/
def AtLineStart (cs : List Char) : Prop :=
  ∀ c, cs.getLast? = some c → c = '\n'

/-- Whether a lexeme ends its line. -/
def Lexeme.endsLine : Lexeme → Bool
  | .bare _ c => c == '\n'
  | _ => false

/-- Whether a line begins after the lexemes; `fresh` says whether one does before them. -/
def lineBegins (fresh : Bool) : List Lexeme → Bool
  | [] => fresh
  | lexeme :: rest => lineBegins lexeme.endsLine rest

/-- Whether each mark of a quote is the first of its line; `fresh` says whether a line begins before
the lexemes. -/
def marksLead (fresh : Bool) : List Lexeme → Bool
  | [] => true
  | lexeme :: rest => (fresh || lexeme != quoteMark) && marksLead lexeme.endsLine rest

variable {fresh : Bool} {xs ys : List Lexeme} {s t : String}

/-! ## Lexemes -/

theorem lineBegins_append (fresh : Bool) (xs ys : List Lexeme) :
    lineBegins fresh (xs ++ ys) = lineBegins (lineBegins fresh xs) ys := by
  induction xs generalizing fresh with
  | nil => rfl
  | cons x xs ih => exact ih x.endsLine

theorem marksLead_append (fresh : Bool) (xs ys : List Lexeme) :
    marksLead fresh (xs ++ ys) = (marksLead fresh xs && marksLead (lineBegins fresh xs) ys) := by
  induction xs generalizing fresh with
  | nil => rfl
  | cons x xs ih => rw [List.cons_append, marksLead, marksLead, lineBegins, ih, Bool.and_assoc]

/-- Where a line begins, more marks may stand. -/
theorem marksLead_true (h : marksLead fresh xs = true) : marksLead true xs = true := by
  cases xs with
  | nil => rfl
  | cons x xs =>
    rw [marksLead, Bool.and_eq_true] at h ⊢
    exact ⟨rfl, h.2⟩

theorem marksLead_of_not_mem (fresh : Bool) (h : quoteMark ∉ xs) : marksLead fresh xs = true := by
  induction xs generalizing fresh with
  | nil => rfl
  | cons x xs ih =>
    rw [List.mem_cons, not_or] at h
    have hx : (x != quoteMark) = true := by simpa using Ne.symm h.1
    rw [marksLead, ih x.endsLine h.2, hx, Bool.or_true, Bool.and_true]

/-- Lexemes that do not begin with a mark may stand inside a line. -/
theorem marksLead_of_head?_ne (h : marksLead true xs = true) (hhead : xs.head? ≠ some quoteMark)
    (fresh : Bool) : marksLead fresh xs = true := by
  cases xs with
  | nil => rfl
  | cons x xs =>
    have hx : (x != quoteMark) = true := by simpa using hhead
    rw [marksLead, Bool.and_eq_true] at h ⊢
    exact ⟨by rw [hx, Bool.or_true], h.2⟩

/-- **A line begins in front of each mark.** -/
theorem atLineStart_of_marksLead {before after : List Lexeme}
    (h : marksLead true (before ++ quoteMark :: after) = true) :
    AtLineStart (before.flatMap Lexeme.spelling) := by
  rw [marksLead_append, Bool.and_eq_true, marksLead, Bool.and_eq_true] at h
  obtain ⟨-, hmark, -⟩ := h
  have hbegins : lineBegins true before = true := by simpa using hmark
  intro c hc
  -- the last lexeme before the mark is a bare newline
  rcases List.eq_nil_or_concat before with rfl | ⟨init, last, rfl⟩
  · exact absurd hc nofun
  · rw [List.concat_eq_append] at hbegins hc
    rw [lineBegins_append] at hbegins
    cases last with
    | bare place d =>
      have hd : d = '\n' := by simpa [lineBegins, Lexeme.endsLine] using hbegins
      simpa [Lexeme.spelling, hd] using hc.symm
    | _ => exact absurd hbegins nofun

/-- A lexeme stays as it is when its line is quoted, unless it ends the line. -/
theorem Lexeme.quoted_cases (lexeme : Lexeme) :
    (lexeme.quoted = [lexeme] ∧ lexeme.endsLine = false) ∨
      ∃ place, lexeme = .bare place '\n' ∧ lexeme.quoted = [lexeme, .bare place '>'] := by
  cases lexeme with
  | bare place c =>
    by_cases hc : c = '\n'
    · exact .inr ⟨place, by rw [hc], if_pos hc⟩
    · exact .inl ⟨if_neg hc, by simpa [Lexeme.endsLine] using hc⟩
  | _ => exact .inl ⟨rfl, rfl⟩

/-- Quoted lexemes have marks only where they have to if there were no marks before. -/
theorem marksLead_flatMap_quoted (xs : List Lexeme) :
    marksLead false (xs.flatMap Lexeme.quoted) = true ↔ quoteMark ∉ xs := by
  induction xs with
  | nil => simp [marksLead]
  | cons x xs ih =>
    rw [List.flatMap_cons, List.mem_cons, not_or, ← ih]
    obtain ⟨hquoted, hends⟩ | ⟨place, rfl, hquoted⟩ := x.quoted_cases
    · rw [hquoted, List.singleton_append, marksLead, hends, Bool.and_eq_true, Bool.false_or,
        bne_iff_ne, ne_comm]
    · -- the mark behind the newline leads, and what follows is inside its line
      rw [hquoted]
      simp [marksLead, quoteMark, Lexeme.endsLine]

/-- **The marks of a quoted text lead just if the text had no marks.** -/
theorem marksLead_quote_iff (hs : Completes .text s.toList) (hne : s ≠ "") :
    marksLead true (lexemesOf (Text.quote s)) = true ↔ quoteMark ∉ lexemesOf s := by
  rw [lexemesOf_quote hs hne, ← marksLead_flatMap_quoted]
  simp [marksLead, quoteMark, Lexeme.endsLine]

/-! ## Texts without marks -/

/-- A text that can be read to its end and has no mark of a quote. -/
structure Unmarked (s : String) : Prop where
  completes : Completes .text s.toList
  not_mem : quoteMark ∉ lexemesOf s

/-- What a grammar has written is no mark, unless the grammar lets marks pass. -/
theorem not_mem_map_lexeme {g : Grammar} {place : Place} (h : place = .text → '>' ∈ g.reserved)
    (cs : List Char) : quoteMark ∉ cs.map (g.lexeme place) := by
  intro hmem
  obtain ⟨c, -, hc⟩ := List.mem_map.1 hmem
  unfold Grammar.lexeme quoteMark at hc
  split at hc
  · exact absurd hc nofun
  · rename_i hreserved
    obtain ⟨hplace, rfl⟩ := Lexeme.bare.inj hc
    exact hreserved (h hplace)

theorem quoteMark_ne_opening (e : Enclosure) : quoteMark ≠ .opening e :=
  nofun

theorem quoteMark_ne_closing (e : Enclosure) : quoteMark ≠ .closing e :=
  nofun

/-- Nothing inside an enclosure is a mark. -/
theorem not_mem_map_inside (g : Grammar) (e : Enclosure) (cs : List Char) :
    quoteMark ∉ cs.map (g.lexeme (.inside e)) := by
  have hplace : Place.inside e = .text → '>' ∈ g.reserved := nofun
  exact not_mem_map_lexeme hplace cs

namespace Unmarked

theorem append (hs : Unmarked s) (ht : Unmarked t) : Unmarked (s ++ t) where
  completes := by
    rw [String.toList_append]
    exact hs.completes.append ht.completes
  not_mem := by
    rw [lexemesOf_append hs.completes ht.completes, List.mem_append, not_or]
    exact ⟨hs.not_mem, ht.not_mem⟩

theorem escape (s : String) : Unmarked (Grammar.text.escape s) where
  completes := completes_escape_text s
  not_mem := by
    rw [lexemesOf_escape]
    exact not_mem_map_lexeme (fun _ => by decide) s.toList

theorem codeSpan {code : String} (h : code ≠ "") : Unmarked (codeSpan code) where
  completes := completes_codeSpan h
  not_mem := by
    rw [lexemesOf_codeSpan h]
    simp [quoteMark_ne_opening, quoteMark_ne_closing, not_mem_map_inside]

theorem codeFence (language : Option String) (code : String) :
    Unmarked (codeFence language code) where
  completes := completes_codeFence language code
  not_mem := by
    have hnewline : quoteMark ≠ .bare (.inside .codeFence) '\n' := nofun
    rw [lexemesOf_codeFence]
    simp [quoteMark_ne_opening, quoteMark_ne_closing, not_mem_map_inside, hnewline]

theorem linkTo (hs : Unmarked s) (url : String) : Unmarked (linkTo s url) where
  completes := completes_linkTo hs.completes url
  not_mem := by
    have hbracket : quoteMark ≠ .bare .text '[' := by decide
    rw [lexemesOf_linkTo hs.completes]
    simp [quoteMark_ne_opening, quoteMark_ne_closing, not_mem_map_inside, hbracket, hs.not_mem]

theorem trim (hs : Unmarked s) : Unmarked (Text.trim s) where
  completes := completes_trim hs.completes
  not_mem := by
    intro hmem
    rw [lexemesOf_trim hs.completes] at hmem
    have hdropped := List.mem_reverse.1
      ((List.dropWhile_sublist _).subset (List.mem_reverse.1 hmem))
    exact hs.not_mem ((List.dropWhile_sublist _).subset hdropped)

end Unmarked

/-! ## Texts with marks at the start of lines -/

/-- A text that can be read to its end and whose marks of quotes are each the first of a line. -/
structure LineMarked (s : String) : Prop where
  completes : Completes .text s.toList
  marks : marksLead true (lexemesOf s) = true

/-- A text that only ends lines: without marks, and with a line beginning after it. -/
structure EndsLine (s : String) : Prop extends Unmarked s where
  begins : ∀ fresh, lineBegins fresh (lexemesOf s) = true

theorem Unmarked.lineMarked (h : Unmarked s) : LineMarked s :=
  ⟨h.completes, marksLead_of_not_mem true h.not_mem⟩

namespace LineMarked

/-- **Lines may be put together.** -/
theorem append_line {sep : String} (hs : LineMarked s) (hsep : EndsLine sep) (ht : LineMarked t) :
    LineMarked (s ++ sep ++ t) where
  completes := by
    rw [String.toList_append, String.toList_append]
    exact (hs.completes.append hsep.completes).append ht.completes
  marks := by
    have hline : Completes .text (s ++ sep).toList := by
      rw [String.toList_append]
      exact hs.completes.append hsep.completes
    rw [lexemesOf_append hline ht.completes, lexemesOf_append hs.completes hsep.completes,
      marksLead_append, marksLead_append, lineBegins_append, hsep.begins, hs.marks, ht.marks,
      marksLead_of_not_mem _ hsep.not_mem]
    rfl

theorem intercalate {sep : String} (hsep : EndsLine sep) {ss : List String}
    (h : ∀ s ∈ ss, LineMarked s) : LineMarked (sep.intercalate ss) :=
  Text.intercalate_induction ⟨.nil, rfl⟩ (fun hs ht => hs.append_line hsep ht) h

/-- **A text without marks may be quoted.** -/
theorem quote (hs : Unmarked s) : LineMarked (Text.quote s) := by
  refine ⟨completes_quote hs.completes, ?_⟩
  by_cases hne : s = ""
  · rw [hne]
    rfl
  · exact (marksLead_quote_iff hs.completes hne).2 hs.not_mem

/-- **Lines may be trimmed.** -/
theorem trim (hs : LineMarked s) : LineMarked (Text.trim s) where
  completes := completes_trim hs.completes
  marks := by
    have hmarks := hs.marks
    rw [lexemesOf_trim hs.completes]
    rw [← List.takeWhile_append_dropWhile (p := Lexeme.isBlank) (l := lexemesOf s),
      marksLead_append, Bool.and_eq_true] at hmarks
    -- what is dropped in front leaves a start of a line, or the start of the text
    have hdropped := marksLead_true hmarks.2
    rw [← Text.dropEnd_append_takeWhile Lexeme.isBlank ((lexemesOf s).dropWhile _),
      marksLead_append, Bool.and_eq_true] at hdropped
    exact hdropped.1

/-- **Something may stand in front of a line** that does not begin with a mark. -/
theorem item {start : String} (hstart : Unmarked start) (ht : LineMarked t)
    (hhead : (lexemesOf t).head? ≠ some quoteMark) : LineMarked (start ++ t) where
  completes := by
    rw [String.toList_append]
    exact hstart.completes.append ht.completes
  marks := by
    rw [lexemesOf_append hstart.completes ht.completes, marksLead_append,
      marksLead_of_not_mem true hstart.not_mem, marksLead_of_head?_ne ht.marks hhead]
    rfl

end LineMarked

/-! ## Texts that show something -/

/-- Whether a text has more than white space. -/
def Text.isVisible (s : String) : Bool :=
  s.toList.any (!Text.isBlank ·)

theorem Text.isVisible_iff : Text.isVisible s = true ↔ ∃ c ∈ s.toList, Text.isBlank c = false := by
  simp [Text.isVisible]

@[simp] theorem Text.isVisible_append (s t : String) :
    Text.isVisible (s ++ t) = (Text.isVisible s || Text.isVisible t) := by
  simp [Text.isVisible]

theorem Text.isVisible_escape (g : Grammar) (hs : Text.isVisible s = true) :
    Text.isVisible (g.escape s) = true := by
  obtain ⟨c, hc, hvisible⟩ := isVisible_iff.1 hs
  refine isVisible_iff.2 ⟨c, ?_, hvisible⟩
  rw [Grammar.toList_escape]
  refine List.mem_flatMap.2 ⟨c, hc, ?_⟩
  unfold Grammar.escapeChar
  split
  · exact List.mem_cons_of_mem _ List.mem_cons_self
  · exact List.mem_cons_self

theorem Text.isVisible_trim (hs : Text.isVisible s = true) :
    Text.isVisible (Text.trim s) = true := by
  obtain ⟨c, hc, hvisible⟩ := isVisible_iff.1 hs
  refine isVisible_iff.2 ⟨c, ?_, hvisible⟩
  rw [Text.trim, String.toList_ofList]
  exact mem_dropEnd_dropWhile hvisible hc

/-- A quoted text shows the mark at least. -/
theorem Text.isVisible_quote (hne : s ≠ "") : Text.isVisible (Text.quote s) = true := by
  refine isVisible_iff.2 ⟨'>', ?_, by decide⟩
  rw [Text.quote, Text.Lines.quote, Text.Lines.toList_markEach_ofString hne]
  exact List.mem_append_left _ (by decide)

/-- A visible text that can be read has a visible lexeme. -/
theorem exists_not_isBlank (hs : Completes .text s.toList) (hvisible : Text.isVisible s = true) :
    ∃ lexeme ∈ lexemesOf s, lexeme.isBlank = false := by
  obtain ⟨c, hc, hvisible⟩ := Text.isVisible_iff.1 hvisible
  rw [← spelling_lexemesFrom hs] at hc
  obtain ⟨lexeme, hlexeme, hc⟩ := List.mem_flatMap.1 hc
  refine ⟨lexeme, hlexeme, ?_⟩
  cases lexeme with
  | bare place d =>
    obtain rfl := List.mem_singleton.1 hc
    exact hvisible
  | _ => rfl

/-- **A trimmed text does not begin with a mark** if it begins visibly and without marks. -/
theorem head?_trim_append_ne (hs : Unmarked s) (hvisible : Text.isVisible s = true)
    (ht : Completes .text t.toList) :
    (lexemesOf (Text.trim (s ++ t))).head? ≠ some quoteMark := by
  have happend : Completes .text (s ++ t).toList := by
    rw [String.toList_append]
    exact hs.completes.append ht
  obtain ⟨lexeme, hlexeme, hblank⟩ := exists_not_isBlank hs.completes hvisible
  have hstays : (lexemesOf s).dropWhile Lexeme.isBlank ≠ [] := fun hnil =>
    absurd (List.dropWhile_eq_nil_iff.1 hnil lexeme hlexeme) (by simp [hblank])
  obtain ⟨first, more, hfirst⟩ := List.exists_cons_of_ne_nil hstays
  have hmem : first ∈ lexemesOf s :=
    (List.dropWhile_sublist _).subset (hfirst ▸ List.mem_cons_self)
  intro hhead
  rw [lexemesOf_trim happend, lexemesOf_append hs.completes ht, List.dropWhile_append,
    hfirst] at hhead
  have hmark : (first :: (more ++ lexemesOf t)).head? = some quoteMark :=
    Text.head?_of_head?_dropEnd hhead
  exact hs.not_mem (Option.some.inj hmark ▸ hmem)

end ChatMarkup

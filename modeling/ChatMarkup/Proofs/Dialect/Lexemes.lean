import ChatMarkup.Proofs.Dialect.Completes

/-!
# What is read of a message

The lexemes of a readable text, told from how the text was put together: what is read of two texts
one after the other, of escaped texts, of code and links, and what quoting and trimming change.
Whatever a message means can be said of its lexemes.

Results:
* `Completes.lexemes_append`: texts one after the other are read one after the other.
* `lexemes_escape`, `lexemes_escape_closer`: escaped texts, in front of others or to the end of what
  encloses them.
* `lexemesOf_codeSpan`, `lexemesOf_codeFence`, `lexemesOf_linkTo`: delimited pieces.
* `lexemesOf_quote`: quoting adds a mark in front and after each newline, wherever it was read.
* `lexemesOf_trim`: trimming takes off white space that was read at the ends.
-/

namespace ChatMarkup

/-- The lexemes that a reader takes in from a place on. -/
def lexemesFrom (place : Place) (cs : List Char) : List Lexeme :=
  ((read place cs).map Reading.lexemes).getD []

/-- The lexemes of a text. -/
def lexemesOf (s : String) : List Lexeme :=
  lexemesFrom .text s.toList

variable {place : Place} {cs ds rest : List Char} {c : Char} {e : Enclosure}

/-! ## One lexeme after the other -/

theorem read_of_completes (h : Completes place cs) :
    read place cs = some ⟨lexemesFrom place cs, .text⟩ := by
  obtain ⟨lexemes, hread⟩ := exists_read_of_completes h
  rw [lexemesFrom, hread]
  rfl

/-- The lexemes of a readable text spell it out. -/
theorem spelling_lexemesFrom (h : Completes place cs) :
    (lexemesFrom place cs).flatMap Lexeme.spelling = cs :=
  spelling_of_read (read_of_completes h)

theorem lexemesFrom_of_eq_map {next : Place} {lexeme : Lexeme}
    (h : read place cs = (read next rest).map (.after lexeme)) (hrest : Completes next rest) :
    lexemesFrom place cs = lexeme :: lexemesFrom next rest := by
  rw [lexemesFrom, h, read_of_completes hrest]
  rfl

@[simp] theorem lexemesFrom_nil (place : Place) : lexemesFrom place [] = [] := by
  cases place <;> rfl

namespace Completes

theorem lexemes_bare (plain : c ∉ place.special) (h : Completes place rest) :
    lexemesFrom place (c :: rest) = .bare place c :: lexemesFrom place rest :=
  lexemesFrom_of_eq_map (read_bare plain rest) h

theorem lexemes_escaped (h : Completes place rest) :
    lexemesFrom place ('\\' :: c :: rest) = .escaped place c :: lexemesFrom place rest :=
  lexemesFrom_of_eq_map (read_escaped place c rest) h

theorem lexemes_opening (begun : e = .codeSpan → rest.head? ≠ some '\x60')
    (h : Completes (.inside e) rest) :
    lexemesFrom .text (e.opener ++ rest) = .opening e :: lexemesFrom (.inside e) rest :=
  lexemesFrom_of_eq_map (read_opener begun) h

theorem lexemes_closing (h : Completes .text rest) :
    lexemesFrom (.inside e) (e.closer ++ rest) = .closing e :: lexemesFrom .text rest :=
  lexemesFrom_of_eq_map (read_closer e rest) h

/-- **Texts one after the other are read one after the other.** -/
theorem lexemes_append (h : Completes place cs) (hd : Completes .text ds) :
    lexemesFrom place (cs ++ ds) = lexemesFrom place cs ++ lexemesFrom .text ds := by
  induction h with
  | nil => rfl
  | bare plain hrest ih =>
    rw [List.cons_append, lexemes_bare plain (hrest.append hd), lexemes_bare plain hrest, ih,
      List.cons_append]
  | escaped visible hrest ih =>
    rw [List.cons_append, List.cons_append, lexemes_escaped (hrest.append hd),
      lexemes_escaped hrest, ih, List.cons_append]
  | @opening e rest begun hrest ih =>
    have hbegun : e = .codeSpan → (rest ++ ds).head? ≠ some '\x60' := fun he => by
      obtain ⟨c, more, rfl⟩ := List.exists_cons_of_ne_nil hrest.ne_nil
      exact begun he
    rw [List.append_assoc, lexemes_opening hbegun (hrest.append hd), lexemes_opening begun hrest,
      ih, List.cons_append]
  | closing hrest ih =>
    rw [List.append_assoc, lexemes_closing (hrest.append hd), lexemes_closing hrest, ih,
      List.cons_append]

end Completes

theorem lexemesOf_append {s t : String} (hs : Completes .text s.toList)
    (ht : Completes .text t.toList) : lexemesOf (s ++ t) = lexemesOf s ++ lexemesOf t := by
  rw [lexemesOf, String.toList_append, hs.lexemes_append ht]
  rfl

/-! ## Escaped texts and delimited pieces -/

/-- What is read of a character that a grammar has written. -/
def Grammar.lexeme (g : Grammar) (place : Place) (c : Char) : Lexeme :=
  if c ∈ g.reserved then .escaped place c else .bare place c

/-- **An escaped text is read as its characters.** -/
theorem lexemes_escape {g : Grammar} (h : place.special ⊆ g.reserved) (s : String)
    (hrest : Completes place rest) :
    lexemesFrom place ((g.escape s).toList ++ rest) =
      s.toList.map (g.lexeme place) ++ lexemesFrom place rest := by
  rw [Grammar.toList_escape]
  induction s.toList with
  | nil => rfl
  | cons c cs ih =>
    have hcs : Completes place (cs.flatMap g.escapeChar ++ rest) := by
      simpa using completes_escape h (String.ofList cs) hrest
    rw [List.flatMap_cons, List.append_assoc, List.map_cons, List.cons_append, ← ih,
      Grammar.escapeChar, Grammar.lexeme]
    split
    · exact hcs.lexemes_escaped
    · rename_i hc
      exact hcs.lexemes_bare fun hspecial => hc (h hspecial)

/-- An escaped text and what closes the enclosure around it are read as its characters and the
delimiter. -/
theorem lexemes_escape_closer {g : Grammar} (h : (Place.inside e).special ⊆ g.reserved)
    (s : String) :
    lexemesFrom (.inside e) ((g.escape s).toList ++ e.closer) =
      s.toList.map (g.lexeme (.inside e)) ++ [.closing e] := by
  have hclosed : Completes (.inside e) (e.closer ++ []) := .closing .nil
  have hlast : lexemesFrom (.inside e) (e.closer ++ []) = [.closing e] := by
    rw [Completes.nil.lexemes_closing, lexemesFrom_nil]
  rw [List.append_nil] at hclosed hlast
  rw [lexemes_escape h s hclosed, hlast]

theorem special_text_subset : Place.text.special ⊆ Grammar.text.reserved := by
  decide

theorem lexemesOf_escape (s : String) :
    lexemesOf (Grammar.text.escape s) = s.toList.map (Grammar.text.lexeme .text) := by
  have hread := lexemes_escape special_text_subset s .nil
  rwa [List.append_nil, lexemesFrom_nil, List.append_nil] at hread

/-- A code span is read as its characters between the two delimiters. -/
theorem lexemesOf_codeSpan {code : String} (h : code ≠ "") :
    lexemesOf (codeSpan code) =
      .opening .codeSpan ::
        (code.toList.map (Grammar.code.lexeme (.inside .codeSpan)) ++ [.closing .codeSpan]) := by
  have hspan : (codeSpan code).toList = Enclosure.codeSpan.opener ++
      ((Grammar.code.escape code).toList ++ Enclosure.codeSpan.closer) := by
    simp [codeSpan, Enclosure.opener, Enclosure.closer]
  have hinside := completes_escape_closer (g := .code) (e := .codeSpan) (by decide) code
  rw [lexemesOf, hspan, hinside.lexemes_opening fun _ => head?_escape_code_ne code _ h,
    lexemes_escape_closer (by decide) code]

/-- A code fence is read as its language and its characters, each on its own lines, between the two
delimiters. -/
theorem lexemesOf_codeFence (language : Option String) (code : String) :
    let place := Place.inside .codeFence
    lexemesOf (codeFence language code) =
      .opening .codeFence ::
        ((language.getD "").toList.map (Grammar.text.lexeme place) ++
          .bare place '\n' :: (code.toList.map (Grammar.code.lexeme place) ++
            [.bare place '\n', .closing .codeFence])) := by
  intro place
  have hbegun {cs : List Char} : Enclosure.codeFence = .codeSpan → cs.head? ≠ some '\x60' := nofun
  have hclosed : Completes place (Enclosure.codeFence.closer ++ []) := .closing .nil
  have hlast : Completes place ('\n' :: (Enclosure.codeFence.closer ++ [])) :=
    .bare (by decide) hclosed
  have hcode := completes_escape (g := .code) (by decide) code hlast
  have hfirst := Completes.bare (c := '\n') (by decide) hcode
  have hlanguage := completes_escape (g := .text) (by decide) (language.getD "") hfirst
  have hfence : (codeFence language code).toList = Enclosure.codeFence.opener ++
      ((Grammar.text.escape (language.getD "")).toList ++ '\n' ::
        ((Grammar.code.escape code).toList ++ '\n' :: (Enclosure.codeFence.closer ++ []))) := by
    simp [codeFence, Enclosure.opener, Enclosure.closer]
  rw [lexemesOf, hfence, hlanguage.lexemes_opening hbegun, lexemes_escape (by decide) _ hfirst,
    hcode.lexemes_bare (by decide), lexemes_escape (by decide) code hlast,
    hclosed.lexemes_bare (by decide), Completes.nil.lexemes_closing, lexemesFrom_nil]

/-- A link is read as a bracket, its label and the destination. -/
theorem lexemesOf_linkTo {label : String} (h : Completes .text label.toList) (url : String) :
    lexemesOf (linkTo label url) =
      .bare .text '[' :: (lexemesOf label ++ .opening .destination ::
        (url.toList.map (Grammar.url.lexeme (.inside .destination)) ++
          [.closing .destination])) := by
  have hlink : (linkTo label url).toList = '[' :: (label.toList ++
      (Enclosure.destination.opener ++ ((Grammar.url.escape url).toList ++
        Enclosure.destination.closer))) := by
    simp [linkTo, Enclosure.opener, Enclosure.closer]
  have hother : Enclosure.destination ≠ .codeSpan := by decide
  have hinside := completes_escape_closer (g := .url) (e := .destination) (by decide) url
  have hopened := Completes.opening (fun he => absurd he hother) hinside
  rw [lexemesOf, hlink, (h.append hopened).lexemes_bare (by decide), h.lexemes_append hopened,
    hinside.lexemes_opening fun he => absurd he hother, lexemes_escape_closer (by decide) url]
  rfl

/-! ## Quoting -/

/-- The mark of a quote, where it means one: in text and not escaped. -/
def quoteMark : Lexeme :=
  .bare .text '>'

/-- What a lexeme becomes when the lines after it are quoted. -/
def Lexeme.quoted : Lexeme → List Lexeme
  | .bare place c => if c = '\n' then [.bare place c, .bare place '>'] else [.bare place c]
  | lexeme => [lexeme]

theorem not_mem_special_quote (place : Place) : ∀ c ∈ ['>'], c ∉ place.special := by
  intro c hc
  obtain rfl := List.mem_singleton.1 hc
  rcases place with _ | e
  · decide
  · cases e <;> decide

/-- Lines after the first are quoted after each newline, also inside code and destinations. -/
theorem lexemes_markEach (h : Completes place cs) :
    lexemesFrom place (cs.flatMap (Text.Lines.markAfter ['>'])) =
      (lexemesFrom place cs).flatMap Lexeme.quoted := by
  induction h with
  | nil => rfl
  | @bare place c rest plain hrest ih =>
    have hmarked := hrest.markEach not_mem_special_quote
    rw [List.flatMap_cons, hrest.lexemes_bare plain, List.flatMap_cons, Lexeme.quoted,
      Text.Lines.markAfter, ← ih]
    split
    · rename_i hc
      have hmark := not_mem_special_quote place '>' List.mem_cons_self
      subst hc
      rw [List.cons_append, (hmarked.append_bare (not_mem_special_quote place)).lexemes_bare plain,
        List.singleton_append, hmarked.lexemes_bare hmark]
      rfl
    · exact hmarked.lexemes_bare plain
  | @escaped place c rest visible hrest ih =>
    have hmarked := hrest.markEach not_mem_special_quote
    have hc : c ≠ '\n' := fun he => absurd visible (he ▸ by decide)
    rw [List.flatMap_cons, List.flatMap_cons, Text.Lines.markAfter, if_neg (by decide),
      Text.Lines.markAfter, if_neg hc, hrest.lexemes_escaped, List.flatMap_cons, ← ih]
    exact hmarked.lexemes_escaped
  | @opening e rest begun hrest ih =>
    have hmarked := hrest.markEach not_mem_special_quote
    have hopener : e.opener.flatMap (Text.Lines.markAfter ['>']) = e.opener := by cases e <;> rfl
    have hbegun : e = .codeSpan →
        (rest.flatMap (Text.Lines.markAfter ['>'])).head? ≠ some '\x60' := fun he =>
      head?_flatMap_markAfter ['>'] rest ▸ begun he
    rw [List.flatMap_append, hopener, hmarked.lexemes_opening hbegun, hrest.lexemes_opening begun,
      List.flatMap_cons, ← ih]
    rfl
  | @closing e rest hrest ih =>
    have hmarked := hrest.markEach not_mem_special_quote
    have hcloser : e.closer.flatMap (Text.Lines.markAfter ['>']) = e.closer := by cases e <;> rfl
    rw [List.flatMap_append, hcloser, hmarked.lexemes_closing, hrest.lexemes_closing,
      List.flatMap_cons, ← ih]
    rfl

/-- **Quoting adds a mark in front and one after each newline.** -/
theorem lexemesOf_quote {s : String} (hs : Completes .text s.toList) (hne : s ≠ "") :
    lexemesOf (Text.quote s) = quoteMark :: (lexemesOf s).flatMap Lexeme.quoted := by
  have hmark : ">".toList = ['>'] := rfl
  have hmarked := hs.markEach not_mem_special_quote
  rw [lexemesOf, Text.quote, Text.Lines.quote, Text.Lines.toList_markEach_ofString hne, hmark,
    List.singleton_append, hmarked.lexemes_bare (by decide), lexemes_markEach hs]
  rfl

/-! ## Trimming -/

/-- Whether a lexeme is white space. -/
def Lexeme.isBlank : Lexeme → Bool
  | .bare _ c => Text.isBlank c
  | _ => false

theorem lexemes_dropWhile (h : Completes .text cs) :
    lexemesFrom .text (cs.dropWhile Text.isBlank) =
      (lexemesFrom .text cs).dropWhile Lexeme.isBlank := by
  induction cs with
  | nil => rfl
  | cons c rest ih =>
    by_cases hc : Text.isBlank c = true
    · have hplain : c ∉ Place.text.special := fun hspecial => by
        rw [not_isBlank_of_mem_reserved (special_text_subset hspecial)] at hc
        exact absurd hc nofun
      have hrest := h.of_blank_cons hc
      rw [List.dropWhile_cons_of_pos hc, hrest.lexemes_bare hplain]
      exact (ih hrest).trans (List.dropWhile_cons_of_pos (a := Lexeme.bare .text c) hc).symm
    · rw [List.dropWhile_cons_of_neg hc]
      -- the first lexeme is spelled with a character that is not white space
      have hspelling := spelling_lexemesFrom h
      cases hlexemes : lexemesFrom .text (c :: rest) with
      | nil => rfl
      | cons lexeme lexemes =>
        refine (List.dropWhile_cons_of_neg fun hblank => hc ?_).symm
        rw [hlexemes, List.flatMap_cons] at hspelling
        cases lexeme with
        | bare place d => exact (List.cons.inj hspelling).1 ▸ hblank
        | _ => exact absurd hblank nofun

/-- A readable text has no lexemes only if it is empty. -/
theorem eq_nil_of_lexemesFrom_eq_nil (h : Completes place cs) (hnil : lexemesFrom place cs = []) :
    cs = [] := by
  rw [← spelling_lexemesFrom h, hnil]
  rfl

theorem lexemes_dropEnd (h : Completes place cs) :
    lexemesFrom place (Text.dropEnd Text.isBlank cs) =
      Text.dropEnd Lexeme.isBlank (lexemesFrom place cs) := by
  induction h with
  | nil => rfl
  | @bare place c rest plain hrest ih =>
    rw [hrest.lexemes_bare plain]
    by_cases hc : Text.isBlank c = true
    · rw [Text.dropEnd_cons hc, Text.dropEnd_cons (x := Lexeme.bare place c) hc, ← ih]
      by_cases hnil : Text.dropEnd Text.isBlank rest = []
      · simp [hnil]
      · have hlexemes := fun hnone => hnil (eq_nil_of_lexemesFrom_eq_nil hrest.dropEnd hnone)
        rw [if_neg hnil, if_neg hlexemes, hrest.dropEnd.lexemes_bare plain]
    · have hvisible : Text.isBlank c = false := by simpa using hc
      have hlexeme : (Lexeme.bare place c).isBlank = false := hvisible
      rw [Text.dropEnd_cons_of_neg hvisible, Text.dropEnd_cons_of_neg hlexeme,
        hrest.dropEnd.lexemes_bare plain, ih]
  | @escaped place c rest visible hrest ih =>
    have hkeep : Text.dropEnd Text.isBlank (['\\', c] ++ rest) = ['\\', c] ++ _ :=
      Text.dropEnd_append rfl visible rest
    rw [hrest.lexemes_escaped, show '\\' :: c :: rest = ['\\', c] ++ rest from rfl, hkeep]
    rw [Text.dropEnd_cons_of_neg (x := Lexeme.escaped place c) rfl, ← ih]
    exact hrest.dropEnd.lexemes_escaped
  | @opening e rest begun hrest ih =>
    have hbegun : e = .codeSpan → (Text.dropEnd Text.isBlank rest).head? ≠ some '\x60' :=
      fun he hhead => begun he (Text.head?_of_head?_dropEnd hhead)
    rw [dropEnd_opener_append, hrest.dropEnd.lexemes_opening hbegun, hrest.lexemes_opening begun,
      Text.dropEnd_cons_of_neg (x := Lexeme.opening e) rfl, ih]
  | @closing e rest hrest ih =>
    rw [dropEnd_closer_append, hrest.dropEnd.lexemes_closing, hrest.lexemes_closing,
      Text.dropEnd_cons_of_neg (x := Lexeme.closing e) rfl, ih]

/-- **Trimming takes off the white space that is read at the ends.** -/
theorem lexemesOf_trim {s : String} (hs : Completes .text s.toList) :
    lexemesOf (Text.trim s) =
      Text.dropEnd Lexeme.isBlank ((lexemesOf s).dropWhile Lexeme.isBlank) := by
  rw [lexemesOf, Text.trim, String.toList_ofList, lexemes_dropEnd hs.dropWhile,
    lexemes_dropWhile hs]
  rfl

end ChatMarkup

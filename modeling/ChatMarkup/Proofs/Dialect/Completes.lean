import ChatMarkup.Proofs.Dialect.Reader
import ChatMarkup.Text.Lines

/-!
# Texts that can be read to their end

What keeps a text readable: to put others after it, to escape, to enclose, to quote and to trim. The
last two change a text after it was escaped, also inside code and destinations. They cannot harm
it, because no newline and no white space stands after a backslash or inside a delimiter.

Results:
* `Completes.append`: readable characters stay so in front of others.
* `completes_escape`: an escaped text can stand wherever its grammar reserves what is special there.
* `completes_escape_closer`: also before what closes the enclosure around it.
* `completes_codeSpan`, `completes_codeFence`, `completes_linkTo`: delimited pieces.
* `Completes.markEach`: a mark at the start of each line, whatever the lines are part of.
* `completes_trim`: no white space at the ends.
-/

namespace ChatMarkup

namespace Completes

variable {place : Place} {cs ds : List Char}

/-- Only in text may nothing be left to read. -/
theorem ne_nil {e : Enclosure} (h : Completes (.inside e) cs) : cs ≠ [] := by
  cases h with
  | bare => exact List.cons_ne_nil _ _
  | escaped => exact List.cons_ne_nil _ _
  | closing => cases e <;> exact List.cons_ne_nil _ _

theorem append (h : Completes place cs) (hd : Completes .text ds) : Completes place (cs ++ ds) := by
  induction h with
  | nil => exact hd
  | bare plain _ ih => exact .bare plain ih
  | escaped visible _ ih => exact .escaped visible ih
  | @opening e rest begun hrest ih =>
    rw [List.append_assoc]
    refine .opening (fun he => ?_) ih
    obtain ⟨c, more, rfl⟩ := List.exists_cons_of_ne_nil hrest.ne_nil
    exact begun he
  | closing _ ih =>
    rw [List.append_assoc]
    exact .closing ih

/-- Characters that are special nowhere can stand in front. -/
theorem append_bare (h : ∀ c ∈ ds, c ∉ place.special) (hc : Completes place cs) :
    Completes place (ds ++ cs) := by
  induction ds with
  | nil => exact hc
  | cons d ds ih =>
    exact .bare (h d List.mem_cons_self) (ih fun c hm => h c (List.mem_cons_of_mem d hm))

end Completes

/-! ## Escaped texts and delimited pieces -/

theorem not_isBlank_of_mem_reserved {g : Grammar} {c : Char} (h : c ∈ g.reserved) :
    Text.isBlank c = false := by
  have hall : g.reserved.all (!Text.isBlank ·) = true := by cases g <;> rfl
  simpa using List.all_eq_true.1 hall c h

/-- **An escaped text can stand wherever its grammar reserves what is special there.** -/
theorem completes_escape {g : Grammar} {place : Place} (h : place.special ⊆ g.reserved) (s : String)
    {rest : List Char} (hrest : Completes place rest) :
    Completes place ((g.escape s).toList ++ rest) := by
  rw [Grammar.toList_escape]
  induction s.toList with
  | nil => exact hrest
  | cons c cs ih =>
    rw [List.flatMap_cons, List.append_assoc, Grammar.escapeChar]
    by_cases hc : c ∈ g.reserved
    · rw [if_pos hc]
      exact .escaped (not_isBlank_of_mem_reserved hc) ih
    · rw [if_neg hc]
      exact .bare (fun hspecial => hc (h hspecial)) ih

/-- An escaped text can stand before what closes the enclosure around it. -/
theorem completes_escape_closer {g : Grammar} {e : Enclosure}
    (h : (Place.inside e).special ⊆ g.reserved) (s : String) :
    Completes (.inside e) ((g.escape s).toList ++ e.closer) := by
  have hclosed : Completes (.inside e) (e.closer ++ []) := .closing .nil
  rw [List.append_nil] at hclosed
  exact completes_escape h s hclosed

/-- A text escaped as plain text is readable. -/
theorem completes_escape_text (s : String) : Completes .text (Grammar.text.escape s).toList := by
  have h : Completes .text ((Grammar.text.escape s).toList ++ []) :=
    completes_escape (by decide) s .nil
  rwa [List.append_nil] at h

/-- An escaped code does not begin with a backtick. -/
theorem head?_escape_code_ne (code : String) (rest : List Char) (h : code ≠ "") :
    ((Grammar.code.escape code).toList ++ rest).head? ≠ some '\x60' := by
  have hne : code.toList ≠ [] := by simpa using h
  obtain ⟨c, cs, hcs⟩ := List.exists_cons_of_ne_nil hne
  rw [Grammar.toList_escape, hcs, List.flatMap_cons, Grammar.escapeChar]
  by_cases hc : c ∈ Grammar.code.reserved
  · simp [hc]
  · have hc' : c ≠ '\x60' := fun he => hc (he ▸ by decide)
    simp [hc, hc']

theorem completes_codeSpan {code : String} (h : code ≠ "") :
    Completes .text (codeSpan code).toList := by
  have hinside := completes_escape_closer (g := .code) (e := .codeSpan) (by decide) code
  have hopened := Completes.opening (fun _ => head?_escape_code_ne code _ h) hinside
  simpa [codeSpan, Enclosure.opener, Enclosure.closer] using hopened

theorem completes_codeFence (language : Option String) (code : String) :
    Completes .text (codeFence language code).toList := by
  have hclosed : Completes (.inside .codeFence) (Enclosure.codeFence.closer ++ []) := .closing .nil
  have hlast : Completes (.inside .codeFence) ('\n' :: (Enclosure.codeFence.closer ++ [])) :=
    .bare (by decide) hclosed
  have hcode := completes_escape (g := .code) (by decide) code hlast
  have hfirst := Completes.bare (c := '\n') (by decide) hcode
  have hlanguage := completes_escape (g := .text) (by decide) (language.getD "") hfirst
  have hopened := Completes.opening (e := .codeFence) nofun hlanguage
  simpa [codeFence, Enclosure.opener, Enclosure.closer] using hopened

/-- A link is readable if its label is. -/
theorem completes_linkTo {label : String} (h : Completes .text label.toList) (url : String) :
    Completes .text (linkTo label url).toList := by
  have hinside := completes_escape_closer (g := .url) (e := .destination) (by decide) url
  have hopened := Completes.opening (e := .destination) nofun hinside
  have hlabel := Completes.bare (c := '[') (by decide) (h.append hopened)
  simpa [linkTo, Enclosure.opener, Enclosure.closer] using hlabel

/-! ## Quoting -/

theorem head?_flatMap_markAfter (mark cs : List Char) :
    (cs.flatMap (Text.Lines.markAfter mark)).head? = cs.head? := by
  rcases cs with _ | ⟨c, cs⟩
  · rfl
  · rw [List.flatMap_cons, Text.Lines.markAfter]
    split
    · rename_i hc
      simp [hc]
    · rfl

/-- **Marks at the start of lines harm no text**, not even one whose lines end inside code or inside
a destination: a mark never gets between a backslash and its character, nor into a delimiter. -/
theorem Completes.markEach {mark : List Char}
    (hmark : ∀ place : Place, ∀ c ∈ mark, c ∉ place.special) {place : Place} {cs : List Char}
    (h : Completes place cs) :
    Completes place (cs.flatMap (Text.Lines.markAfter mark)) := by
  induction h with
  | nil => exact .nil
  | @bare place c rest plain _ ih =>
    rw [List.flatMap_cons, Text.Lines.markAfter]
    split
    · rename_i hc
      exact .bare (hc ▸ plain) (ih.append_bare (hmark place))
    · exact .bare plain ih
  | @escaped place c rest visible _ ih =>
    have hc : c ≠ '\n' := fun he => absurd visible (he ▸ by decide)
    rw [List.flatMap_cons, List.flatMap_cons, Text.Lines.markAfter, if_neg (by decide),
      Text.Lines.markAfter, if_neg hc]
    exact .escaped visible ih
  | @opening e rest begun _ ih =>
    have hopener : e.opener.flatMap (Text.Lines.markAfter mark) = e.opener := by cases e <;> rfl
    rw [List.flatMap_append, hopener]
    exact .opening (fun he => head?_flatMap_markAfter mark rest ▸ begun he) ih
  | @closing e rest _ ih =>
    have hcloser : e.closer.flatMap (Text.Lines.markAfter mark) = e.closer := by cases e <;> rfl
    rw [List.flatMap_append, hcloser]
    exact .closing ih

theorem completes_quote {s : String} (h : Completes .text s.toList) :
    Completes .text (Text.quote s).toList := by
  have hmark : ∀ place : Place, ∀ c ∈ ">".toList, c ∉ place.special := by
    intro place c hc
    obtain rfl : c = '>' := List.mem_singleton.1 hc
    rcases place with _ | e
    · decide
    · cases e <;> decide
  by_cases hs : s = ""
  · subst hs
    exact .nil
  · unfold Text.quote Text.Lines.quote
    rw [Text.Lines.toList_markEach_ofString hs]
    exact (h.markEach hmark).append_bare (hmark .text)

/-! ## Trimming -/

theorem Completes.of_blank_cons {c : Char} {cs : List Char} (hc : Text.isBlank c = true)
    (h : Completes .text (c :: cs)) : Completes .text cs := by
  generalize hcs : c :: cs = ds at h
  cases h with
  | nil => exact absurd hcs nofun
  | bare _ hrest =>
    rw [List.cons.injEq] at hcs
    exact hcs.2 ▸ hrest
  | escaped =>
    rw [(List.cons.injEq ..).mp hcs |>.1] at hc
    exact absurd hc (by decide)
  | @opening e =>
    have hfirst : c = '\x60' ∨ c = ']' := by
      cases e <;> simp_all [Enclosure.opener]
    rcases hfirst with rfl | rfl
    · exact absurd hc (by decide)
    · exact absurd hc (by decide)

/-- Taking white space off the front leaves a text readable. -/
theorem Completes.dropWhile {cs : List Char} (h : Completes .text cs) :
    Completes .text (cs.dropWhile Text.isBlank) := by
  induction cs with
  | nil => exact h
  | cons c rest ih =>
    by_cases hc : Text.isBlank c = true
    · rw [List.dropWhile_cons_of_pos hc]
      exact ih (h.of_blank_cons hc)
    · rwa [List.dropWhile_cons_of_neg hc]

/-- An enclosure begins and ends in a character that is not taken off. -/
theorem dropEnd_opener_append (e : Enclosure) (cs : List Char) :
    Text.dropEnd Text.isBlank (e.opener ++ cs) = e.opener ++ Text.dropEnd Text.isBlank cs := by
  cases e <;> exact Text.dropEnd_append rfl (by decide) cs

theorem dropEnd_closer_append (e : Enclosure) (cs : List Char) :
    Text.dropEnd Text.isBlank (e.closer ++ cs) = e.closer ++ Text.dropEnd Text.isBlank cs := by
  cases e <;> exact Text.dropEnd_append rfl (by decide) cs

/-- Taking white space off the end leaves a text readable: what is inside code or a destination
ends in a delimiter. -/
theorem Completes.dropEnd {place : Place} {cs : List Char} (h : Completes place cs) :
    Completes place (Text.dropEnd Text.isBlank cs) := by
  induction h with
  | nil => exact .nil
  | @bare place c rest plain _ ih =>
    by_cases hc : Text.isBlank c = true
    · rw [Text.dropEnd_cons hc]
      split
      · rename_i hnil
        rwa [hnil] at ih
      · exact .bare plain ih
    · rw [← List.singleton_append, Text.dropEnd_append rfl (by simpa using hc)]
      exact .bare plain ih
  | @escaped place c rest visible _ ih =>
    have hkeep : Text.dropEnd Text.isBlank (['\\', c] ++ rest) = ['\\', c] ++ _ :=
      Text.dropEnd_append rfl visible rest
    exact hkeep ▸ .escaped visible ih
  | @opening e rest begun _ ih =>
    rw [dropEnd_opener_append]
    exact .opening (fun he hhead => begun he (Text.head?_of_head?_dropEnd hhead)) ih
  | @closing e rest _ ih =>
    rw [dropEnd_closer_append]
    exact .closing ih

theorem completes_trim {s : String} (h : Completes .text s.toList) :
    Completes .text (Text.trim s).toList := by
  rw [Text.trim, String.toList_ofList]
  exact h.dropWhile.dropEnd

end ChatMarkup

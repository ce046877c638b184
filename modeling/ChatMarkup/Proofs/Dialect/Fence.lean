import ChatMarkup.Proofs.Dialect.Lexemes

/-!
# Reading code fences back

A code fence has its language on its first line and its code on the lines after that. Both are read
strictly by the grammar that they are written in: a reserved character has to be escaped there, and
no other one may be.

Results:
* `textOf?_map_lexeme`: what a grammar has written is read back by it.
* `cut_append`: how lexemes are cut at the first of a kind.
* `read?_codeFence`: a code fence is read back as its language and its code.
-/

namespace ChatMarkup

/-! ## Texts of a grammar -/

/-- The character that a grammar has written as a lexeme, if it writes any so. -/
def Grammar.literal? (g : Grammar) : Lexeme → Option Char
  | .bare _ c => if c ∈ g.reserved then none else some c
  | .escaped _ c => if c ∈ g.reserved then some c else none
  | _ => none

/-- The text that a grammar has written as lexemes, if it writes any so. -/
def Grammar.textOf? (g : Grammar) (lexemes : List Lexeme) : Option String :=
  (lexemes.mapM g.literal?).map String.ofList

theorem Grammar.literal?_lexeme (g : Grammar) (place : Place) (c : Char) :
    g.literal? (g.lexeme place c) = some c := by
  unfold Grammar.lexeme
  split
  · rename_i hc
    simp [Grammar.literal?, hc]
  · rename_i hc
    simp [Grammar.literal?, hc]

/-- **What a grammar has written is read back by it.** -/
theorem Grammar.textOf?_map_lexeme (g : Grammar) (place : Place) (s : String) :
    g.textOf? (s.toList.map (g.lexeme place)) = some s := by
  have hliteral : g.literal? ∘ g.lexeme place = pure := funext (g.literal?_lexeme place)
  unfold Grammar.textOf?
  rw [List.mapM_map, hliteral, List.mapM_pure, List.map_id']
  simp

/-! ## Fences -/

/-- Lexemes cut at the first that is `mark`: those before it and those after it. -/
def cut (mark : Lexeme) : List Lexeme → Option (List Lexeme × List Lexeme)
  | [] => none
  | lexeme :: rest =>
    if lexeme = mark then some ([], rest)
    else (cut mark rest).map fun parts => (lexeme :: parts.1, parts.2)

theorem cut_append {mark : Lexeme} {before : List Lexeme} (h : mark ∉ before)
    (after : List Lexeme) : cut mark (before ++ mark :: after) = some (before, after) := by
  induction before with
  | nil => simp [cut]
  | cons lexeme rest ih =>
    obtain ⟨hlexeme, hrest⟩ := not_or.1 fun hmem => h (List.mem_cons.2 hmem)
    rw [List.cons_append, cut, if_neg (Ne.symm hlexeme), ih hrest]
    rfl

/-- A code fence as it is read. Without a language, its language is empty. -/
structure Fence where
  language : String
  code : String
deriving DecidableEq, Repr

namespace Fence

/-- The end of a line in a fence. -/
def newline : Lexeme :=
  .bare (.inside .codeFence) '\n'

/-- Reads a message that is one code fence. The first backticks that are not escaped close it; the
first newline in it ends the language, and the last one, right before the closing, ends the code. -/
def read? (message : String) : Option Fence := do
  let reading ← read .text message.toList
  let (before, inside) ← cut (.opening .codeFence) reading.lexemes
  let (inside, after) ← cut (.closing .codeFence) inside
  let (language, lines) ← cut newline inside
  if before = [] ∧ after = [] ∧ lines.getLast? = some newline then
    let language ← Grammar.text.textOf? language
    let code ← Grammar.code.textOf? lines.dropLast
    return { language, code }
  else none

/-- A grammar writes no delimiter of its own accord. -/
theorem closing_notMem_map_lexeme (g : Grammar) (place : Place) (cs : List Char) (e : Enclosure) :
    Lexeme.closing e ∉ cs.map (g.lexeme place) := by
  intro hmem
  obtain ⟨c, -, hc⟩ := List.mem_map.1 hmem
  unfold Grammar.lexeme at hc
  split at hc <;> cases hc

/-- Of a text in one line no newline is read. -/
theorem newline_notMem_map_lexeme {s : String} (h : '\n' ∉ s.toList) (g : Grammar) :
    newline ∉ s.toList.map (g.lexeme (.inside .codeFence)) := by
  intro hmem
  obtain ⟨c, hc, hlexeme⟩ := List.mem_map.1 hmem
  unfold Grammar.lexeme newline at hlexeme
  split at hlexeme
  · cases hlexeme
  · cases hlexeme
    exact h hc

/-- What makes a message read as a fence: the lexemes of its language, a newline and the lexemes of
its code, with a newline after them, between the two delimiters. -/
theorem read?_eq_some {message language code : String} {place : Place} {name lines : List Lexeme}
    (hread : read .text message.toList =
      some ⟨.opening .codeFence :: (name ++ newline :: (lines ++ [newline]) ++
        [.closing .codeFence]), place⟩)
    (hname : Lexeme.closing .codeFence ∉ name) (hlines : Lexeme.closing .codeFence ∉ lines)
    (hfirst : newline ∉ name) (hlanguage : Grammar.text.textOf? name = some language)
    (hcode : Grammar.code.textOf? lines = some code) :
    read? message = some { language, code } := by
  have hclosing : Lexeme.closing .codeFence ∉ name ++ newline :: (lines ++ [newline]) := by
    simp [hname, hlines, newline]
  have hopened := @cut_append (.opening .codeFence) [] List.not_mem_nil
    (name ++ newline :: (lines ++ [newline]) ++ [.closing .codeFence])
  have hclosed := cut_append hclosing []
  have hended := cut_append hfirst (lines ++ [newline])
  rw [List.nil_append] at hopened
  unfold read?
  simp only [hread, Option.bind_eq_bind, Option.bind_some, hopened, hclosed, hended]
  simp [hlanguage, hcode]

/-- **A code fence is read back as its language and its code**, if its language has no newline. -/
theorem read?_codeFence {language : Option String} (h : '\n' ∉ (language.getD "").toList)
    (code : String) :
    read? (codeFence language code) = some { language := language.getD "", code := code } := by
  let place := Place.inside .codeFence
  let name := (language.getD "").toList.map (Grammar.text.lexeme place)
  let lines := code.toList.map (Grammar.code.lexeme place)
  have hlexemes : lexemesFrom .text (codeFence language code).toList =
      .opening .codeFence :: (name ++ newline :: (lines ++ [newline]) ++
        [.closing .codeFence]) := by
    rw [← lexemesOf, lexemesOf_codeFence]
    simp [name, lines, place, newline]
  have hread := read_of_completes (completes_codeFence language code)
  rw [hlexemes] at hread
  exact read?_eq_some hread (closing_notMem_map_lexeme .text place _ .codeFence)
    (closing_notMem_map_lexeme .code place _ .codeFence) (newline_notMem_map_lexeme h .text)
    (Grammar.text.textOf?_map_lexeme place _) (Grammar.code.textOf?_map_lexeme place code)

end Fence

end ChatMarkup

import ChatMarkup.Dialect.Code
import ChatMarkup.Text.Blank

/-!
# Reading messages

How a message is read back. The reader goes through the characters once and knows only where it is:
in text, in a code span, in a code fence or in a link destination. A backslash makes the next
character literal everywhere.

Results:
* `spelling_of_read`: what is read spells out the characters again, so the reader skips none.
* `exists_read_of_completes`: `Completes` says, without running the reader, that it gets through
  characters and is back in text at their end.
-/

namespace ChatMarkup

/-- What encloses a stretch of a message that is not read as text. -/
inductive Enclosure
  | codeSpan
  | codeFence
  | destination
deriving DecidableEq, Repr

namespace Enclosure

/-- What leads from text into an enclosure. -/
def opener : Enclosure → List Char
  | codeSpan => ['\x60']
  | codeFence => ['\x60', '\x60', '\x60']
  | destination => [']', '(']

/-- What leads from an enclosure back into text. -/
def closer : Enclosure → List Char
  | codeSpan => ['\x60']
  | codeFence => ['\x60', '\x60', '\x60']
  | destination => [')']

end Enclosure

/-- Where a reader is. -/
inductive Place
  | text
  | inside (enclosure : Enclosure)
deriving DecidableEq, Repr

/-- What a reader takes in at one step. -/
inductive Lexeme
  /-- A character by itself. -/
  | bare (place : Place) (c : Char)
  /-- A backslash and the character that it makes literal. -/
  | escaped (place : Place) (c : Char)
  | opening (enclosure : Enclosure)
  | closing (enclosure : Enclosure)
deriving DecidableEq, Repr

/-- The characters of a lexeme. -/
def Lexeme.spelling : Lexeme → List Char
  | bare _ c => [c]
  | escaped _ c => ['\\', c]
  | opening e => e.opener
  | closing e => e.closer

/-- What a reader has taken in, and where it is then. -/
structure Reading where
  lexemes : List Lexeme
  place : Place
deriving DecidableEq, Repr

/-- A reading with one lexeme before it. -/
def Reading.after (lexeme : Lexeme) (reading : Reading) : Reading :=
  { reading with lexemes := lexeme :: reading.lexemes }

/-- Reads characters. Three backticks open a fence and any other backtick opens a code span; a
closing bracket before a parenthesis opens a destination. The reader is stuck at a backslash with
nothing after it and, in a fence, at a backtick that does not begin the three that close it. -/
def read : Place → List Char → Option Reading
  | place, [] => some ⟨[], place⟩
  | _, ['\\'] => none
  | place, '\\' :: c :: rest => (read place rest).map (.after (.escaped place c))
  | .text, '\x60' :: '\x60' :: '\x60' :: rest =>
    (read (.inside .codeFence) rest).map (.after (.opening .codeFence))
  | .text, '\x60' :: rest => (read (.inside .codeSpan) rest).map (.after (.opening .codeSpan))
  | .text, ']' :: '(' :: rest =>
    (read (.inside .destination) rest).map (.after (.opening .destination))
  | .inside .codeSpan, '\x60' :: rest => (read .text rest).map (.after (.closing .codeSpan))
  | .inside .codeFence, '\x60' :: '\x60' :: '\x60' :: rest =>
    (read .text rest).map (.after (.closing .codeFence))
  | .inside .codeFence, '\x60' :: _ => none
  | .inside .destination, ')' :: rest => (read .text rest).map (.after (.closing .destination))
  | place, c :: rest => (read place rest).map (.after (.bare place c))

/-- A message can be read on its own: the reader takes in all of it and is back in text then. -/
def SelfContained (message : String) : Prop :=
  ∃ lexemes, read .text message.toList = some ⟨lexemes, .text⟩

/-- **What is read spells out the characters again.** -/
theorem spelling_of_read {place : Place} {cs : List Char} {reading : Reading}
    (h : read place cs = some reading) : reading.lexemes.flatMap Lexeme.spelling = cs := by
  fun_induction read place cs generalizing reading with
  | case1 => rw [← Option.some.inj h]; rfl
  | case2 => exact absurd h nofun
  | case9 => exact absurd h nofun
  | _ =>
    -- one lexeme is read, and then the rest
    rename_i ih
    obtain ⟨inner, hinner, rfl⟩ := Option.map_eq_some_iff.1 h
    exact congrArg (_ ++ ·) (ih hinner)

/-! ## What the reader gets through -/

/-- The characters that a reader may take for something else than themselves. -/
def Place.special : Place → List Char
  | .text => ['\\', '\x60', ']']
  | .inside .destination => ['\\', ')']
  | .inside _ => ['\\', '\x60']

/-- The characters can be read to their end, from `place` and into text. No white space is escaped,
and a code span does not begin with a backtick, which would be read as part of its opening. -/
inductive Completes : Place → List Char → Prop
  | nil : Completes .text []
  | bare {place : Place} {c : Char} {rest : List Char} (plain : c ∉ place.special) :
      Completes place rest → Completes place (c :: rest)
  | escaped {place : Place} {c : Char} {rest : List Char} (visible : Text.isBlank c = false) :
      Completes place rest → Completes place ('\\' :: c :: rest)
  | opening {e : Enclosure} {rest : List Char}
      (begun : e = .codeSpan → rest.head? ≠ some '\x60') :
      Completes (.inside e) rest → Completes .text (e.opener ++ rest)
  | closing {e : Enclosure} {rest : List Char} :
      Completes .text rest → Completes (.inside e) (e.closer ++ rest)

theorem read_bare {place : Place} {c : Char} (h : c ∉ place.special) (rest : List Char) :
    read place (c :: rest) = (read place rest).map (.after (.bare place c)) := by
  rcases place with _ | e
  · simp only [Place.special, List.mem_cons, List.not_mem_nil, or_false, not_or] at h
    obtain ⟨hbackslash, hbacktick, hbracket⟩ := h
    simp [read, hbackslash, hbacktick, hbracket]
  · cases e <;> simp_all [read, Place.special]

theorem read_escaped (place : Place) (c : Char) (rest : List Char) :
    read place ('\\' :: c :: rest) = (read place rest).map (.after (.escaped place c)) := by
  rw [read]

theorem read_opener {e : Enclosure} {rest : List Char}
    (h : e = .codeSpan → rest.head? ≠ some '\x60') :
    read .text (e.opener ++ rest) = (read (.inside e) rest).map (.after (.opening e)) := by
  cases e with
  | codeSpan =>
    rcases rest with _ | ⟨c, rest⟩
    · rfl
    · have hc : c ≠ '\x60' := by simpa using h rfl
      simp [Enclosure.opener, read, hc]
  | codeFence => rfl
  | destination => rfl

theorem read_closer (e : Enclosure) (rest : List Char) :
    read (.inside e) (e.closer ++ rest) = (read .text rest).map (.after (.closing e)) := by
  cases e <;> simp [Enclosure.closer, read]

/-- A reader that gets through the rest after one lexeme gets through the whole. -/
theorem exists_read_of_eq_map {place next : Place} {cs rest : List Char} {lexeme : Lexeme}
    (h : read place cs = (read next rest).map (.after lexeme))
    (hrest : ∃ lexemes, read next rest = some ⟨lexemes, .text⟩) :
    ∃ lexemes, read place cs = some ⟨lexemes, .text⟩ := by
  obtain ⟨lexemes, hread⟩ := hrest
  refine ⟨lexeme :: lexemes, ?_⟩
  rw [h, hread]
  rfl

/-- **The reader gets through what completes.** -/
theorem exists_read_of_completes {place : Place} {cs : List Char} (h : Completes place cs) :
    ∃ lexemes, read place cs = some ⟨lexemes, .text⟩ := by
  induction h with
  | nil => exact ⟨[], rfl⟩
  | bare plain _ ih => exact exists_read_of_eq_map (read_bare plain _) ih
  | escaped _ _ ih => exact exists_read_of_eq_map (read_escaped _ _ _) ih
  | opening begun _ ih => exact exists_read_of_eq_map (read_opener begun) ih
  | closing _ ih => exact exists_read_of_eq_map (read_closer _ _) ih

end ChatMarkup

import ChatMarkup.Proofs.Dialect.Lexemes
import Mathlib.Data.Finset.Basic
import Mathlib.Data.Finset.Dedup

/-!
# Letters and their faces

What a message looks like when it is shown: its characters without escapes, delimiters and marks,
each in the faces that marks have opened around it. The same mark opens a face and closes it, so
what a mark does depends on all that is open before it.

Results:
* `lettersFrom_append`, `Shows.append`: lexemes one after the other show their letters so.
* `shows_text`, `shows_codeSpan`: texts and code show their characters in the faces around them.
* `Shows.marked`: marks around a text show it in a new face, if that is not the innermost already.
* `Shows.unmarked`: if it is, they show the text without it.
-/

namespace ChatMarkup

/-- A way to show text. -/
inductive Face
  | bold
  | italic
  | struck
deriving DecidableEq, Repr

namespace Face

/-- The mark before and behind a text in a face. -/
def mark : Face → Char
  | bold => '*'
  | italic => '_'
  | struck => '~'

/-- The open faces after a mark, innermost first: the mark closes the innermost if it is the same,
and opens a new one otherwise. -/
def toggle (face : Face) : List Face → List Face
  | [] => [face]
  | innermost :: around => if innermost = face then around else face :: innermost :: around

theorem toggle_of_head?_ne {face : Face} {around : List Face} (h : around.head? ≠ some face) :
    face.toggle around = face :: around := by
  cases around with
  | nil => rfl
  | cons innermost around => exact if_neg (by simpa using h)

theorem toggle_cons_self (face : Face) (around : List Face) :
    face.toggle (face :: around) = around :=
  if_pos rfl

end Face

/-- A character as it is shown. -/
structure Letter where
  char : Char
  faces : Finset Face
deriving DecidableEq

/-! ## Reading letters -/

/-- The face that a lexeme opens or closes. -/
def Lexeme.face? : Lexeme → Option Face
  | .bare .text '*' => some .bold
  | .bare .text '_' => some .italic
  | .bare .text '~' => some .struck
  | _ => none

/-- The character that a lexeme shows. Marks and delimiters show none, and neither do destinations
and the bracket before the label of a link. -/
def Lexeme.shown? : Lexeme → Option Char
  | .bare .text c => if c ∈ ['*', '_', '~', '['] then none else some c
  | .bare (.inside .destination) _ | .escaped (.inside .destination) _ => none
  | .bare _ c | .escaped _ c => some c
  | .opening _ | .closing _ => none

/-- The open faces after a lexeme. -/
def Lexeme.facesAfter (around : List Face) (lexeme : Lexeme) : List Face :=
  match lexeme.face? with
  | some face => face.toggle around
  | none => around

/-- The open faces after lexemes. -/
def facesAfter (around : List Face) (lexemes : List Lexeme) : List Face :=
  lexemes.foldl Lexeme.facesAfter around

/-- The letters that lexemes show inside open faces, innermost first. -/
def lettersFrom (around : List Face) : List Lexeme → List Letter
  | [] => []
  | lexeme :: rest =>
    (lexeme.shown?.toList.map fun c => ⟨c, around.toFinset⟩) ++
      lettersFrom (lexeme.facesAfter around) rest

theorem lettersFrom_append (around : List Face) (before after : List Lexeme) :
    lettersFrom around (before ++ after) =
      lettersFrom around before ++ lettersFrom (facesAfter around before) after := by
  induction before generalizing around with
  | nil => rfl
  | cons lexeme rest ih =>
    rw [List.cons_append, lettersFrom, ih, lettersFrom, List.append_assoc]
    rfl

theorem facesAfter_append (around : List Face) (before after : List Lexeme) :
    facesAfter around (before ++ after) = facesAfter (facesAfter around before) after :=
  List.foldl_append

/-! ## What lexemes show -/

/-- The lexemes show letters inside open faces, and leave these faces open. -/
structure Shows (around : List Face) (lexemes : List Lexeme) (letters : List Letter) : Prop where
  letters_eq : lettersFrom around lexemes = letters
  faces_eq : facesAfter around lexemes = around

variable {around : List Face} {lexemes : List Lexeme} {letters : List Letter}

namespace Shows

theorem nil (around : List Face) : Shows around [] [] :=
  ⟨rfl, rfl⟩

theorem append {more : List Lexeme} {moreLetters : List Letter} (h : Shows around lexemes letters)
    (hmore : Shows around more moreLetters) :
    Shows around (lexemes ++ more) (letters ++ moreLetters) where
  letters_eq := by rw [lettersFrom_append, h.faces_eq, h.letters_eq, hmore.letters_eq]
  faces_eq := by rw [facesAfter_append, h.faces_eq, hmore.faces_eq]

/-- A lexeme that is no mark shows its character in the faces around it. -/
theorem singleton {lexeme : Lexeme} (hface : lexeme.face? = none) (around : List Face) :
    Shows around [lexeme] (lexeme.shown?.toList.map fun c => ⟨c, around.toFinset⟩) where
  letters_eq := List.append_nil _
  faces_eq := by
    show lexeme.facesAfter around = around
    rw [Lexeme.facesAfter, hface]

/-- What stands for the character `c` in each place of a list shows just these characters. -/
theorem map {f : Char → Lexeme} (hf : ∀ c, (f c).face? = none ∧ (f c).shown? = some c)
    (around : List Face) (cs : List Char) :
    Shows around (cs.map f) (cs.map fun c => ⟨c, around.toFinset⟩) := by
  induction cs with
  | nil => exact nil around
  | cons c cs ih =>
    have hc := singleton (hf c).1 around
    rw [(hf c).2] at hc
    exact hc.append ih

/-- The lexeme of a mark. -/
theorem face?_mark (face : Face) : (Lexeme.bare .text face.mark).face? = some face := by
  cases face <;> rfl

theorem lettersFrom_mark (face : Face) (around : List Face) (rest : List Lexeme) :
    lettersFrom around (.bare .text face.mark :: rest) = lettersFrom (face.toggle around) rest := by
  have hshown : (Lexeme.bare .text face.mark).shown? = none := by cases face <;> rfl
  rw [lettersFrom, hshown, Lexeme.facesAfter, face?_mark]
  rfl

theorem facesAfter_mark (face : Face) (around : List Face) (rest : List Lexeme) :
    facesAfter around (.bare .text face.mark :: rest) = facesAfter (face.toggle around) rest := by
  rw [facesAfter, List.foldl_cons, Lexeme.facesAfter, face?_mark]
  rfl

/-- A text between two marks shows what it shows in the faces after the first mark. -/
theorem between (face : Face) (h : Shows (face.toggle around) lexemes letters)
    (hback : face.toggle (face.toggle around) = around) :
    Shows around (.bare .text face.mark :: (lexemes ++ [.bare .text face.mark])) letters where
  letters_eq := by
    rw [lettersFrom_mark, lettersFrom_append, h.letters_eq, h.faces_eq, lettersFrom_mark]
    exact List.append_nil _
  faces_eq := by
    rw [facesAfter_mark, facesAfter_append, h.faces_eq, facesAfter_mark, hback]
    rfl

/-- **Marks show a text in a new face**, if that is not the innermost already. -/
theorem marked {face : Face} (hne : around.head? ≠ some face)
    (h : Shows (face :: around) lexemes letters) :
    Shows around (.bare .text face.mark :: (lexemes ++ [.bare .text face.mark])) letters := by
  have htoggle := Face.toggle_of_head?_ne hne
  refine between face (htoggle ▸ h) ?_
  rw [htoggle, Face.toggle_cons_self]

/-- **Marks show a text without the innermost face**, if that is theirs. -/
theorem unmarked {face : Face} (hne : around.head? ≠ some face)
    (h : Shows around lexemes letters) :
    Shows (face :: around) (.bare .text face.mark :: (lexemes ++ [.bare .text face.mark]))
      letters := by
  have htoggle := Face.toggle_cons_self face around
  refine between face (htoggle.symm ▸ h) ?_
  rw [htoggle, Face.toggle_of_head?_ne hne]

end Shows

/-! ## Texts and code -/

/-- A text between two marks is read between them. -/
theorem lexemesOf_marked (face : Face) {s : String} (hs : Completes .text s.toList) :
    lexemesOf (String.singleton face.mark ++ s ++ String.singleton face.mark) =
      .bare .text face.mark :: (lexemesOf s ++ [.bare .text face.mark]) := by
  have hplain : face.mark ∉ Place.text.special := by cases face <;> decide
  have hlast : Completes .text [face.mark] := .bare hplain .nil
  have hmarked : (String.singleton face.mark ++ s ++ String.singleton face.mark).toList =
      face.mark :: (s.toList ++ [face.mark]) := by simp
  rw [lexemesOf, hmarked, (hs.append hlast).lexemes_bare hplain, hs.lexemes_append hlast,
    Completes.nil.lexemes_bare hplain, lexemesFrom_nil]
  rfl

/-- **A text shows its characters** in the faces around it, none of them as a mark. -/
theorem shows_text (around : List Face) (s : String) :
    Shows around (lexemesOf (Grammar.text.escape s))
      (s.toList.map fun c => ⟨c, around.toFinset⟩) := by
  rw [lexemesOf_escape]
  refine Shows.map (fun c => ?_) around s.toList
  unfold Grammar.lexeme
  split
  · exact ⟨rfl, rfl⟩
  · rename_i hc
    have hmarks : ['*', '_', '~', '['] ⊆ Grammar.text.reserved := by decide
    have hplain : c ∉ ['*', '_', '~', '['] := fun hmem => hc (hmarks hmem)
    refine ⟨?_, if_neg hplain⟩
    unfold Lexeme.face?
    split <;> simp_all

/-- **Code shows its characters** in the faces around it, whatever they are. -/
theorem shows_codeSpan (around : List Face) {code : String} (h : code ≠ "") :
    Shows around (lexemesOf (codeSpan code))
      (code.toList.map fun c => ⟨c, around.toFinset⟩) := by
  have hcode : Shows around (code.toList.map (Grammar.code.lexeme (.inside .codeSpan)))
      (code.toList.map fun c => ⟨c, around.toFinset⟩) := by
    refine Shows.map (fun c => ?_) around code.toList
    unfold Grammar.lexeme
    split <;> exact ⟨rfl, rfl⟩
  have hopening : Shows around [.opening .codeSpan] _ := Shows.singleton rfl around
  have hclosing : Shows around [.closing .codeSpan] _ := Shows.singleton rfl around
  rw [lexemesOf_codeSpan h]
  simpa [Lexeme.shown?] using (hopening.append hcode).append hclosing

end ChatMarkup

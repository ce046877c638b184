import ChatMarkup.Proofs.Dialect.Faces
import ChatMarkup.Proofs.Document.Everywhere
import ChatMarkup.Render.Standard

/-!
# The plain text of a line

A reader that forgets all markup is left with the characters of a message: those of its texts and
its code, without backslashes, marks, delimiters and destinations. Of a line of text, with its
marks, its code and its links in any nesting, that is the plain text of the line again. So nothing
of a text gets lost in markup, and nothing of markup gets into the text.

Results:
* `Tells.append`, `tells_escape`, `tells_codeSpan`, `Tells.marked`, `Tells.linkTo`: what is told by
  the pieces of which lines are made.
* `tells_writeNode`: what is written of a line tells its plain text.
* `shownText?_write`: reading what is written of a line gives its plain text.
-/

namespace ChatMarkup

/-- The text that a message shows, if a reader takes in all of it and is back in text then. -/
def shownText? (message : String) : Option String :=
  match read .text message.toList with
  | some ⟨lexemes, .text⟩ => some (String.ofList (lexemes.filterMap Lexeme.shown?))
  | _ => none

/-- The message can be read to its end, and what it shows is the text. -/
structure Tells (message text : String) : Prop where
  readable : Completes .text message.toList
  shown : (lexemesOf message).filterMap Lexeme.shown? = text.toList

/-! ## What lexemes show -/

/-- The letters that lexemes show are the characters that they show, whatever their faces. -/
theorem chars_lettersFrom (around : List Face) (lexemes : List Lexeme) :
    (lettersFrom around lexemes).map Letter.char = lexemes.filterMap Lexeme.shown? := by
  induction lexemes generalizing around with
  | nil => rfl
  | cons lexeme rest ih =>
    rw [lettersFrom, List.map_append, ih]
    cases hshown : lexeme.shown? with
    | none => simp [hshown]
    | some c => simp [hshown]

theorem Shows.filterMap_shown? {around : List Face} {lexemes : List Lexeme} {letters : List Letter}
    (h : Shows around lexemes letters) :
    lexemes.filterMap Lexeme.shown? = letters.map Letter.char := by
  rw [← h.letters_eq, chars_lettersFrom]

/-- A destination is not shown. -/
theorem filterMap_shown?_destination (cs : List Char) :
    (cs.map (Grammar.url.lexeme (.inside .destination))).filterMap Lexeme.shown? = [] := by
  rw [List.filterMap_eq_nil_iff]
  intro lexeme hlexeme
  obtain ⟨c, -, rfl⟩ := List.mem_map.1 hlexeme
  unfold Grammar.lexeme
  split
  · rfl
  · rfl

/-! ## The pieces of lines -/

theorem tells_empty : Tells "" "" :=
  ⟨.nil, rfl⟩

/-- The end of a line is told as it is. -/
theorem tells_newline : Tells "\n" "\n" :=
  ⟨.bare (by decide) .nil, rfl⟩

/-- **An escaped text tells the text.** -/
theorem tells_escape (s : String) : Tells (Grammar.text.escape s) s where
  readable := completes_escape_text s
  shown := by
    rw [(shows_text [] s).filterMap_shown?]
    simp [Function.comp_def]

/-- **A code span tells the code.** -/
theorem tells_codeSpan {code : String} (h : code ≠ "") : Tells (codeSpan code) code where
  readable := completes_codeSpan h
  shown := by
    rw [(shows_codeSpan [] h).filterMap_shown?]
    simp [Function.comp_def]

namespace Tells

variable {message text : String}

/-- **Messages one after the other** tell their texts one after the other. -/
theorem append {more moreText : String} (h : Tells message text) (hmore : Tells more moreText) :
    Tells (message ++ more) (text ++ moreText) where
  readable := by
    rw [String.toList_append]
    exact h.readable.append hmore.readable
  shown := by
    rw [lexemesOf_append h.readable hmore.readable, List.filterMap_append, h.shown, hmore.shown,
      String.toList_append]

/-- **Marks around a message** are not told. -/
theorem marked (face : Face) (h : Tells message text) :
    Tells (String.singleton face.mark ++ message ++ String.singleton face.mark) text where
  readable := by
    have hplain : face.mark ∉ Place.text.special := by cases face <;> decide
    simpa using Completes.bare hplain (h.readable.append (.bare hplain .nil))
  shown := by
    have hmark : (Lexeme.bare .text face.mark).shown? = none := by cases face <;> rfl
    rw [lexemesOf_marked face h.readable]
    simp [hmark, h.shown]

/-- **Of a link its label is told**, whatever its destination. -/
theorem linkTo (url : String) (h : Tells message text) : Tells (linkTo message url) text where
  readable := completes_linkTo h.readable url
  shown := by
    have hbracket : (Lexeme.bare .text '[').shown? = none := rfl
    have hopening : (Lexeme.opening .destination).shown? = none := rfl
    have hclosing : (Lexeme.closing .destination).shown? = none := rfl
    rw [lexemesOf_linkTo h.readable, List.filterMap_cons_none hbracket, List.filterMap_append,
      h.shown, List.filterMap_cons_none hopening, List.filterMap_append,
      filterMap_shown?_destination, List.filterMap_cons_none hclosing]
    simp

/-- What a message tells is what a reader is shown of it. -/
theorem shownText?_eq (h : Tells message text) : shownText? message = some text := by
  have hread := read_of_completes h.readable
  have hshown := h.shown
  rw [lexemesOf] at hshown
  rw [shownText?, hread]
  simp only [hshown, String.ofList_toList]

end Tells

/-! ## Lines -/

/-- Whether a node is part of a line of text without images: text, code, the end of a line, or a
container for such parts. -/
def Node.isLineText : Node → Bool
  | .leaf (.text _) | .leaf .lineBreak => true
  | .leaf (.inlineCode code) => !code.isEmpty
  | .container .paragraph _ | .container .emphasis _ | .container .strong _
  | .container .strikethrough _ | .container (.link _) _ => true
  | _ => false

open Node

/-- Nodes with nothing between them tell their plain texts one after the other. -/
theorem tells_write {r : Renderer} (hsep : r.separator = "") {nodes : List Node}
    (h : ∀ node ∈ nodes, Tells (r.writeNode node) node.plainText) :
    Tells (r.write nodes) (plainTexts nodes) := by
  induction nodes with
  | nil =>
    rw [Renderer.write_nil]
    exact tells_empty
  | cons node rest ih =>
    rw [Renderer.write_cons_of_separator_eq hsep, plainTexts]
    have hrest := ih fun other hother => h other (List.mem_cons_of_mem node hother)
    exact (h node List.mem_cons_self).append hrest

/-- **What is written of a line tells its plain text**, wherever the line stands. -/
theorem tells_writeNode {r : Renderer} (hr : r.rules = standardRules) (node : Node)
    (hn : node.everywhere isLineText = true) : Tells (r.writeNode node) node.plainText := by
  obtain ⟨hhere, hinside⟩ := (everywhere_iff node).1 hn
  rw [Renderer.writeNode_eq, hr]
  cases node with
  | leaf l =>
    cases l with
    | text s => exact tells_escape s
    | inlineCode code => exact tells_codeSpan (by simpa [isLineText] using hhere)
    | lineBreak => exact tells_newline
    | _ => exact absurd hhere nofun
  | container c children =>
    -- each of these containers has its children written with nothing between them
    have hrules : (r.apply .inline).rules = standardRules := hr
    have hchildren : Tells ((r.apply .inline).write children) (plainTexts children) := by
      refine tells_write rfl fun child hchild => ?_
      have hsmaller : sizeOf child < sizeOf (container c children) :=
        sizeOf_lt_of_mem_children hchild
      exact tells_writeNode hrules child (hinside child hchild)
    cases c with
    | paragraph => exact hchildren
    | emphasis => exact hchildren.marked .italic
    | strong => exact hchildren.marked .bold
    | strikethrough => exact hchildren.marked .struck
    | link url => exact hchildren.linkTo url
    | _ => exact absurd hhere nofun
termination_by sizeOf node

/-- **Reading what is written of a line gives its plain text.** For all lines of text, code, line
ends, marks and links in any nesting, wherever they stand and with any texts and destinations: the
reader gets through what the standard rules write, and what it is shown is the plain text. -/
theorem shownText?_write {r : Renderer} (hr : r.rules = standardRules) {node : Node}
    (hn : node.everywhere isLineText = true) :
    shownText? (r.write [node]) = some node.plainText := by
  rw [Renderer.write_singleton]
  exact (tells_writeNode hr node hn).shownText?_eq

/-- A link in a link and code next to code, all spelled with delimiters, and strong text in strong
text. -/
theorem shownText?_write_nested_link :
    let r := Renderer.top {} standardRules
    let code : Node := .leaf (.inlineCode "\x60\\]")
    let inner : Node := .container (.link "b)\\") [code, code, .text "](*"]
    let outer : Node := .container (.link "(a\x60") [inner, .leaf .lineBreak]
    let strong : Node := .container .strong [.container .strong [.text "_\\"], outer]
    let node : Node := .container .paragraph [.container .paragraph [], strong]
    (r.rules = standardRules ∧ node.everywhere isLineText = true) ∧
      node.plainText = "_\\\x60\\]\x60\\]](*\n" ∧
      shownText? (r.write [node]) = some node.plainText := by
  intro r code inner outer strong node
  have hn : node.everywhere isLineText = true := by decide
  exact ⟨⟨rfl, hn⟩, by decide +kernel, shownText?_write rfl hn⟩

end ChatMarkup

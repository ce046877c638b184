import ChatMarkup.Proofs.Dialect.QuoteMarks
import ChatMarkup.Proofs.Render.Embedded

/-!
# Where the marks of quotes stand

The rule for quotes marks lines that are finished, and every rule around it goes on from the marked
text. So a mark stays at the start of its line only if nothing is put in front of it: no mark of
another quote, no bullet, and nothing of a line of text.

Results:
* `unmarked_textClosed`, `quoteMark_mem_writeNode`: documents without quotes have no marks, and a
  quote that shows something has one.
* `lineMarked_writeNode`: what is written of a node has its marks at the start of lines if its
  quotes stand where a line begins.
* `quoteMarks_lead_write`: both for documents, said of the text before each mark.
-/

namespace ChatMarkup

/-! ## Nodes whose quotes begin lines -/

/-- Whether a container is written with marks of its own around its children. -/
def Container.isMarked : Container → Bool
  | .heading _ | .emphasis | .strong | .strikethrough | .link _ | .table | .tableRow => true
  | _ => false

/-- Whether something of a leaf is seen, whatever the style. -/
def Leaf.isVisible : Leaf → Bool
  | .text s => Text.isVisible s
  | .inlineCode _ | .codeBlock .. | .image .. | .html _ => true
  | .thematicBreak | .lineBreak | .footnoteReference _ => false

namespace Node

mutual

/-- Whether something of a node is seen, whatever the style. -/
def isVisible : Node → Bool
  | leaf l => l.isVisible
  | container c children => c.isMarked || anyVisible children

/-- Whether something of a list of nodes is seen. -/
def anyVisible : List Node → Bool
  | [] => false
  | node :: rest => node.isVisible || anyVisible rest

end

/-- Whether some quote in a node has something in it that is seen. -/
def showsQuote (node : Node) : Bool :=
  !node.everywhere fun part => part.isUnquoted || !part.isVisible

/-- Whether a node is a list item that begins with something to be seen, and without quotes. -/
def beginsUnquoted : Node → Bool
  | container (.listItem _) (first :: _) =>
    first.everywhere isUnquoted && first.isVisible
  | _ => false

/-- Whether a node has quotes right in it only where a line begins: anywhere in documents, list
items and footnotes, behind the beginning of an item in lists, and nowhere in other nodes, quotes
among them. -/
def placesQuotes : Node → Bool
  | container (.list ..) items =>
    items.all fun item => item.everywhere isUnquoted || item.beginsUnquoted
  | container .document _ | container (.listItem _) _ | container (.footnoteDefinition _) _ => true
  | container _ children => everywhereAll isUnquoted children
  | leaf _ => true

end Node

open Node

/-! ## Documents without quotes -/

/-- **The standard rules write no marks of their own accord**, apart from the rule for quotes. -/
theorem unmarked_textClosed : TextClosed Unmarked where
  layout s hs := by
    refine ⟨completes_ruleClosed.layout s hs, ?_⟩
    have hall : ∀ s ∈ layout, quoteMark ∉ lexemesOf s := by decide
    exact hall s hs
  append := Unmarked.append
  escape := Unmarked.escape
  codeSpan := Unmarked.codeSpan
  codeFence := Unmarked.codeFence
  linkTo url h := h.linkTo url
  trim := Unmarked.trim

/-! ## Nodes that show something -/

theorem exists_isVisible_of_anyVisible {nodes : List Node} (h : anyVisible nodes = true) :
    ∃ node ∈ nodes, node.isVisible = true := by
  induction nodes with
  | nil => exact absurd h nofun
  | cons node rest ih =>
    rw [anyVisible, Bool.or_eq_true] at h
    rcases h with h | h
    · exact ⟨node, List.mem_cons_self, h⟩
    · obtain ⟨other, hother, hvisible⟩ := ih h
      exact ⟨other, List.mem_cons_of_mem node hother, hvisible⟩

/-- A text that begins visibly is visible. -/
theorem isVisible_enclosed {opening : String} (h : Text.isVisible opening = true) (s t : String) :
    Text.isVisible (opening ++ s ++ t) = true := by
  rw [Text.isVisible_append, Text.isVisible_append, h]
  rfl

theorem isVisible_codeFence (language : Option String) (code : String) :
    Text.isVisible (codeFence language code) = true := by
  have hfence : Text.isVisible "\x60\x60\x60" = true := by decide
  simp [codeFence, hfence]

theorem isVisible_linkTo (label url : String) : Text.isVisible (linkTo label url) = true := by
  have hbracket : Text.isVisible "[" = true := by decide
  simp [linkTo, hbracket]

theorem isVisible_headingText (style : Style) (level : Nat) (s : String) :
    Text.isVisible (Rule.headingText style level s) = true := by
  have hmark : Text.isVisible "*" = true := by decide
  unfold Rule.headingText
  split
  · simp [hmark]
  · exact isVisible_enclosed hmark s "*"

/-- The marks of a container are seen, whatever is between them. -/
theorem isVisible_writeNode_of_isMarked {r : Renderer} (hr : r.rules = standardRules)
    {c : Container} (hc : c.isMarked = true) (children : List Node) :
    Text.isVisible (r.writeNode (container c children)) = true := by
  rw [Renderer.writeNode_eq, hr]
  cases c with
  | heading level => exact isVisible_headingText r.style level _
  | link url => exact isVisible_linkTo _ url
  | emphasis | strong | strikethrough | table | tableRow =>
    exact isVisible_enclosed (by decide) _ _
  | _ => cases hc

theorem isVisible_textKept : TextKept fun s => Text.isVisible s = true where
  append_left _ _ hs := by
    rw [Text.isVisible_append, hs, Bool.true_or]
  append_right _ _ ht := by
    rw [Text.isVisible_append, ht, Bool.or_true]
  linkTo url _ _ := isVisible_linkTo _ url
  quote _ hs := by
    refine Text.isVisible_quote fun hempty => ?_
    rw [hempty] at hs
    exact absurd hs (by decide)
  trim _ hs := Text.isVisible_trim hs

/-- **What is visible is written so that something is seen.** -/
theorem isVisible_writeNode {r : Renderer} (hr : r.Readable) (node : Node)
    (hwell : node.everywhere wellDelimited = true) (h : node.isVisible = true) :
    Text.isVisible (r.writeNode node) = true := by
  cases node with
  | leaf l =>
    rw [Renderer.writeNode_eq, hr.1]
    cases l with
    | text s => exact Text.isVisible_escape .text h
    | image url alt => exact isVisible_linkTo _ url
    | codeBlock language code => exact isVisible_codeFence language code
    | inlineCode _ | html _ => exact isVisible_enclosed (by decide) _ _
    | thematicBreak | lineBreak | footnoteReference _ => cases h
  | container c children =>
    by_cases hmarked : c.isMarked = true
    · exact isVisible_writeNode_of_isMarked hr.1 hmarked children
    · rw [isVisible, Bool.or_eq_true] at h
      obtain ⟨child, hchild, hvisible⟩ :=
        exists_isVisible_of_anyVisible (h.resolve_left hmarked)
      have hpart : Node.Part child (container c children) := .child hchild
      have hsmaller := hpart.sizeOf_lt
      exact isVisible_textKept.writeNode_of_child hchild hwell
        (fun hr' => isVisible_writeNode hr' child (everywhere_of_part hpart hwell) hvisible) hr
termination_by sizeOf node

/-! ## Quotes that are shown -/

theorem quoteMark_textKept : TextKept fun s => quoteMark ∈ lexemesOf s where
  append_left hs ht hmark := by
    rw [lexemesOf_append hs ht]
    exact List.mem_append_left _ hmark
  append_right hs ht hmark := by
    rw [lexemesOf_append hs ht]
    exact List.mem_append_right _ hmark
  linkTo url hlabel hmark := by
    rw [lexemesOf_linkTo hlabel]
    exact List.mem_cons_of_mem _ (List.mem_append_left _ hmark)
  quote {s} hs hmark := by
    have hne : s ≠ "" := by
      rintro rfl
      exact absurd hmark List.not_mem_nil
    rw [lexemesOf_quote hs hne]
    exact List.mem_cons_self
  trim hs hmark := by
    rw [lexemesOf_trim hs]
    exact Text.mem_dropEnd_dropWhile (by decide) hmark

/-- The quote that is shown is the node or stands in one of its children. -/
theorem showsQuote_cases {node : Node} (h : node.showsQuote = true) :
    (node.kind = .blockquote ∧ node.isVisible = true) ∨
      ∃ child ∈ node.children, child.showsQuote = true := by
  by_cases hchild : ∃ child ∈ node.children, child.showsQuote = true
  · exact .inr hchild
  · refine .inl ?_
    have hinside : ∀ child ∈ node.children,
        child.everywhere (fun part => part.isUnquoted || !part.isVisible) = true := by
      simpa [showsQuote] using hchild
    have hhere : ¬ (node.isUnquoted || !node.isVisible) = true := fun hhere => by
      rw [showsQuote, (everywhere_iff node).2 ⟨hhere, hinside⟩] at h
      exact absurd h nofun
    simpa [isUnquoted] using hhere

/-- A quote that shows something has a mark where it stands. -/
theorem quoteMark_mem_writeNode_quote {r : Renderer} (hr : r.Readable) {node : Node}
    (hwell : node.everywhere wellDelimited = true) (hquote : node.kind = .blockquote)
    (hvisible : node.isVisible = true) : quoteMark ∈ lexemesOf (r.writeNode node) := by
  have hblocks : (r.apply (.joined "\n\n")).Readable :=
    completes_ruleClosed.standard_apply hr (RuleClosed.ofLayout_joined (by decide))
  have hread : Completes .text ((r.apply (.joined "\n\n")).write node.children).toList :=
    completes_ruleClosed.write hblocks fun child hchild => everywhere_of_part (.child hchild) hwell
  have hwritten : r.writeNode node =
      Text.quote ((r.apply (.joined "\n\n")).write node.children) := by
    rw [Renderer.writeNode_eq, hr.1, hquote]
    rfl
  have hseen := isVisible_writeNode hr node hwell hvisible
  rw [hwritten] at hseen ⊢
  rw [lexemesOf_quote hread]
  · exact List.mem_cons_self
  · intro hempty
    rw [hempty] at hseen
    exact absurd hseen (by decide)

/-- **A quote that shows something has a mark**, wherever it stands. -/
theorem quoteMark_mem_writeNode {r : Renderer} (hr : r.Readable) (node : Node)
    (hwell : node.everywhere wellDelimited = true) (h : node.showsQuote = true) :
    quoteMark ∈ lexemesOf (r.writeNode node) := by
  obtain ⟨hquote, hvisible⟩ | ⟨child, hchild, hshows⟩ := showsQuote_cases h
  · exact quoteMark_mem_writeNode_quote hr hwell hquote hvisible
  · have hpart : Node.Part child node := .child hchild
    have hsmaller := hpart.sizeOf_lt
    refine quoteMark_textKept.writeNode_of_child hchild hwell (fun hr' => ?_) hr
    exact quoteMark_mem_writeNode hr' child (everywhere_of_part hpart hwell) hshows
termination_by sizeOf node

/-! ## Places where nodes begin lines -/

theorem endsLine_newline : EndsLine "\n" where
  completes := completes_ruleClosed.layout "\n" (by decide)
  not_mem := by decide
  begins _ := rfl

theorem endsLine_blankLine : EndsLine "\n\n" where
  completes := completes_ruleClosed.layout "\n\n" (by decide)
  not_mem := by decide
  begins _ := rfl

/-- A renderer with the standard rules, in a place where each node begins a line. -/
structure Renderer.Lined (r : Renderer) : Prop where
  rules : r.rules = standardRules
  endsLine : EndsLine r.separator

section Lined

variable {r : Renderer} {nodes : List Node} {item : Node}

theorem Renderer.Lined.readable (hr : r.Lined) : r.Readable :=
  ⟨hr.rules, hr.endsLine.completes⟩

theorem Renderer.Lined.unmarked_write (hr : r.Lined)
    (hwell : ∀ node ∈ nodes, node.everywhere wellDelimited = true)
    (hquotes : ∀ node ∈ nodes, node.everywhere isUnquoted = true) : Unmarked (r.write nodes) :=
  unmarked_textClosed.write ⟨hr.rules, hr.endsLine.toUnmarked⟩ hwell (Or.inl hquotes)

/-- What is written of several nodes begins with what is written of the first. -/
theorem Renderer.Lined.exists_write_cons (hr : r.Lined) (first : Node) {more : List Node}
    (hwell : ∀ node ∈ more, node.everywhere wellDelimited = true) :
    ∃ rest, Completes .text rest.toList ∧ r.write (first :: more) = r.writeNode first ++ rest := by
  by_cases hnil : more = []
  · refine ⟨"", .nil, ?_⟩
    rw [hnil, write_singleton, String.append_empty]
  · have hmore : Completes .text (r.write more).toList :=
      completes_ruleClosed.write hr.readable hwell
    refine ⟨r.separator ++ r.write more, ?_, ?_⟩
    · rw [String.toList_append]
      exact hr.endsLine.completes.append hmore
    · rw [write, List.map_cons, String.intercalate_cons_of_ne_nil (by simpa using hnil),
        String.append_assoc]
      rfl

/-! ## Items of lists -/

theorem everywhere_of_mem_itemContents {p : Node → Bool} (h : item.everywhere p = true) :
    ∀ part ∈ Rule.itemContents item, part.everywhere p = true := by
  intro part hpart
  unfold Rule.itemContents at hpart
  split at hpart
  · exact ((everywhere_iff _).1 h).2 part hpart
  · rwa [List.mem_singleton.1 hpart]

/-- The text of an item does not begin with a mark if the item has no quotes or begins with
something else. -/
theorem head?_item_ne (hr : r.Lined) (hwell : item.everywhere wellDelimited = true)
    (hquotes : item.everywhere isUnquoted = true ∨ item.beginsUnquoted = true) :
    (lexemesOf (Text.trim (r.write (Rule.itemContents item)))).head? ≠ some quoteMark := by
  rcases hquotes with hunquoted | hbegins
  · have hunmarked := hr.unmarked_write (everywhere_of_mem_itemContents hwell)
      (everywhere_of_mem_itemContents hunquoted)
    exact fun hhead => hunmarked.trim.not_mem (List.mem_of_mem_head? hhead)
  · unfold beginsUnquoted at hbegins
    split at hbegins
    · rename_i checked first more
      obtain ⟨hunquoted, hvisible⟩ := Bool.and_eq_true _ _ ▸ hbegins
      have hcontents := everywhere_of_mem_itemContents hwell
      have hwellFirst := hcontents first List.mem_cons_self
      have hfirst : Unmarked (r.writeNode first) :=
        unmarked_textClosed.writeNode ⟨hr.rules, hr.endsLine.toUnmarked⟩ first hwellFirst
          (Or.inl hunquoted)
      have hseen := isVisible_writeNode hr.readable first hwellFirst hvisible
      have hmore : ∀ node ∈ more, node.everywhere wellDelimited = true := fun node hnode =>
        hcontents node (List.mem_cons_of_mem first hnode)
      obtain ⟨rest, hrest, hwritten⟩ := hr.exists_write_cons first hmore
      rw [Rule.itemContents, hwritten]
      exact head?_trim_append_ne hfirst hseen hrest
    · cases hbegins

/-- Lines of a list may stand behind their bullets if none of them begins with a mark. -/
theorem lineMarked_listText (scope : Scope) (ordered : Bool) (start : Option Nat)
    (items : List Node) {texts : List String}
    (h : ∀ s ∈ texts, LineMarked s ∧ (lexemesOf (Text.trim s)).head? ≠ some quoteMark) :
    LineMarked (Rule.listText scope ordered start items texts) := by
  refine LineMarked.intercalate endsLine_newline fun line hline => ?_
  obtain ⟨index, hindex, rfl⟩ := List.mem_mapIdx.1 hline
  obtain ⟨hmarked, hhead⟩ := h _ (List.of_mem_zip (List.getElem_mem hindex)).2
  exact LineMarked.item (Unmarked.escape _) hmarked.trim hhead

end Lined

/-! ## Whole documents -/

/-- **What is written of a node has its marks at the start of lines** if quotes are placed so
everywhere in it. -/
theorem lineMarked_writeNode {r : Renderer} (hr : r.Lined) (node : Node)
    (hwell : node.everywhere wellDelimited = true)
    (hplaced : node.everywhere placesQuotes = true) : LineMarked (r.writeNode node) := by
  -- parts of the node, each of which begins a line
  have hparts (r' : Renderer) (hr' : r'.Lined) {parts : List Node}
      (own : ∀ part ∈ parts, Node.Part part node) : LineMarked (r'.write parts) := by
    refine LineMarked.intercalate hr'.endsLine fun s hs => ?_
    obtain ⟨part, hpart, rfl⟩ := List.mem_map.1 hs
    have hsmaller := (own part hpart).sizeOf_lt
    exact lineMarked_writeNode hr' part (everywhere_of_part (own part hpart) hwell)
      (everywhere_of_part (own part hpart) hplaced)
  have hunquoted (hquotes : node.everywhere isUnquoted = true) : LineMarked (r.writeNode node) :=
    (unmarked_textClosed.writeNode ⟨hr.rules, hr.endsLine.toUnmarked⟩ node hwell
      (Or.inl hquotes)).lineMarked
  have hblocks : (r.apply (.joined "\n\n")).Lined := ⟨hr.rules, endsLine_blankLine⟩
  have hhere := ((everywhere_iff node).1 hplaced).1
  cases node with
  | leaf l => exact hunquoted (by cases l <;> rfl)
  | container c children =>
    have hchildren : ∀ child ∈ children, Node.Part child (.container c children) :=
      fun _ hchild => .child hchild
    cases c with
    | document =>
      rw [Renderer.writeNode_eq, hr.rules]
      exact (hparts _ hblocks hchildren).trim
    | blockquote =>
      rw [Renderer.writeNode_eq, hr.rules]
      refine LineMarked.quote (hblocks.unmarked_write (fun child hchild => ?_) ?_)
      · exact everywhere_of_part (hchildren child hchild) hwell
      · exact (everywhereAll_iff children).1 hhere
    | list ordered start =>
      have hitems : (r.apply (.andThen .nested (.joined "\n"))).Lined :=
        ⟨hr.rules, endsLine_newline⟩
      rw [Renderer.writeNode_eq, hr.rules]
      show LineMarked ((Recipe.askEach _ _ _).run _)
      rw [Recipe.run_askEach]
      refine lineMarked_listText r.toScope ordered start children fun s hs => ?_
      obtain ⟨parts, hmem, rfl⟩ := List.mem_map.1 hs
      obtain ⟨⟨item, hitem⟩, -, rfl⟩ := List.mem_map.1 hmem
      have hquotes := List.all_eq_true.1 hhere item hitem
      rw [Bool.or_eq_true] at hquotes
      refine ⟨hparts _ hitems fun _ hp => Rule.part_of_mem_itemContents hitem hp, ?_⟩
      exact head?_item_ne hitems (everywhere_of_part (hchildren item hitem) hwell) hquotes
    | listItem checked =>
      rw [Renderer.writeNode_eq, hr.rules]
      exact hparts r hr hchildren
    | footnoteDefinition label =>
      rw [Renderer.writeNode_eq, hr.rules]
      exact hparts r hr hchildren
    | _ =>
      exact hunquoted ((everywhere_iff _).2 ⟨rfl, (everywhereAll_iff children).1 hhere⟩)
termination_by sizeOf node

/-- **Marks of quotes stand only at the start of lines**: for all documents without tables and empty
code whose quotes are placed where a line begins, and all styles, a reader takes in all of what is
written, there is a mark if a quote has something to show, and each bare mark that is read as text
has a line beginning in front of it. -/
theorem quoteMarks_lead_write (style : Style) {nodes : List Node}
    (hwell : ∀ node ∈ nodes, node.everywhere wellDelimited = true)
    (hplaced : ∀ node ∈ nodes, node.everywhere placesQuotes = true) :
    ∃ lexemes,
      read .text ((Renderer.top style standardRules).write nodes).toList =
        some ⟨lexemes, .text⟩ ∧
      ((∃ node ∈ nodes, node.showsQuote = true) → quoteMark ∈ lexemes) ∧
      ∀ before after, lexemes = before ++ quoteMark :: after →
        AtLineStart (before.flatMap Lexeme.spelling) := by
  have htop : (Renderer.top style standardRules).Lined := ⟨rfl, endsLine_blankLine⟩
  have hlines : ∀ s ∈ nodes.map (Renderer.top style standardRules).writeNode, LineMarked s := by
    intro s hs
    obtain ⟨node, hnode, rfl⟩ := List.mem_map.1 hs
    exact lineMarked_writeNode htop node (hwell node hnode) (hplaced node hnode)
  have hwritten : LineMarked ((Renderer.top style standardRules).write nodes) :=
    LineMarked.intercalate htop.endsLine hlines
  refine ⟨_, read_of_completes hwritten.completes, ?_, fun before after heq => ?_⟩
  · rintro ⟨node, hnode, hshows⟩
    exact quoteMark_textKept.intercalate htop.endsLine.completes
      (fun s hs => (hlines s hs).completes) (List.mem_map_of_mem hnode)
      (quoteMark_mem_writeNode htop.readable node (hwell node hnode) hshows)
  · have hmarks := hwritten.marks
    rw [lexemesOf, heq] at hmarks
    exact atLineStart_of_marksLead hmarks

/-- A quote with a list and code over two lines in it, also behind text and behind code in items of
a list. -/
theorem quoteMarks_lead_write_list_item :
    let code : Node := .leaf (.codeBlock none "a\n> b")
    let bullets : Node := .container (.list false none) [.text "> c"]
    let quoted : Node := .container .blockquote [code, bullets]
    let item : Node := .container (.listItem (some true)) [.text "d", quoted]
    let other : Node := .container (.listItem none) [code, item]
    let numbers : Node := .container (.list true none) [item, other]
    let nodes : List Node := [quoted, numbers]
    ((∀ node ∈ nodes, node.everywhere wellDelimited = true) ∧
        ∀ node ∈ nodes, node.everywhere placesQuotes = true) ∧
      ∃ lexemes,
        read .text ((Renderer.top {} standardRules).write nodes).toList = some ⟨lexemes, .text⟩ ∧
        ((∃ node ∈ nodes, node.showsQuote = true) → quoteMark ∈ lexemes) ∧
        ∀ before after, lexemes = before ++ quoteMark :: after →
          AtLineStart (before.flatMap Lexeme.spelling) := by
  intro code bullets quoted item other numbers nodes
  have hwell : ∀ node ∈ nodes, node.everywhere wellDelimited = true := by decide
  have hplaced : ∀ node ∈ nodes, node.everywhere placesQuotes = true := by decide
  exact ⟨⟨hwell, hplaced⟩, quoteMarks_lead_write {} hwell hplaced⟩

/-- **The mark of a quote that begins a list item stands behind the bullet**, and the mark of a
quote in a quote behind the mark of the other. -/
theorem quoteMark_behind_bullet :
    let quote : Node := .container .blockquote [.container .paragraph [.text "q"]]
    let bullet : Node := .container (.list false none) [.container (.listItem none) [quote]]
    let renderer := Renderer.top {} standardRules
    (∀ node ∈ [bullet, .container .blockquote [quote]], node.everywhere wellDelimited = true) ∧
      renderer.write [bullet] = "• >q" ∧
      renderer.write [.container .blockquote [quote]] = ">>q" ∧
      ¬ ∀ before after, lexemesOf (renderer.write [bullet]) = before ++ quoteMark :: after →
        AtLineStart (before.flatMap Lexeme.spelling) := by
  intro quote bullet renderer
  have hwell : ∀ node ∈ [bullet, .container .blockquote [quote]],
      node.everywhere wellDelimited = true := by decide
  have hbullet : renderer.write [bullet] = "• >q" := by decide +kernel
  refine ⟨hwell, hbullet, by decide +kernel, fun hlead => ?_⟩
  have hmark : lexemesOf (renderer.write [bullet]) =
      [.bare .text '•', .bare .text ' '] ++ quoteMark :: [.bare .text 'q'] := by
    rw [hbullet]
    decide
  exact absurd (hlead _ _ hmark ' ' rfl) (by decide)

end ChatMarkup

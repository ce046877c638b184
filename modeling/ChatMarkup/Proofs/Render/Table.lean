import ChatMarkup.Proofs.Dialect.Escaped
import ChatMarkup.Proofs.Document.Everywhere
import ChatMarkup.Render.Standard

/-!
# Tables in code fences

A table is written inside a code fence, where all text should be escaped as code. The rules do so
with the texts of its cells, but not with code, links and images, which are written as anywhere
else. So the fence holds what a fence may hold iff no cell has anything of these kinds that code
would have to escape in another way.

Results:
* `Judged.append`, `Judged.intercalate`: texts are judged piece by piece.
* `judged_writeNode`: how what a cell holds is judged.
* `accepts_table_iff`: which tables have a fence that holds what a fence may hold.
-/

namespace ChatMarkup

/-! ## Texts inside a fence -/

/-- A text with complete pairs, which may stand in a code fence iff `fine`. -/
structure Judged (s : String) (fine : Bool) : Prop where
  paired : Paired s.toList
  accepts_eq : Grammar.code.accepts s.toList = fine

namespace Judged

variable {s t : String} {a b : Bool}

theorem append (hs : Judged s a) (ht : Judged t b) : Judged (s ++ t) (a && b) where
  paired := by
    rw [String.toList_append]
    exact hs.paired.append ht.paired
  accepts_eq := by
    rw [String.toList_append, Grammar.accepts_append _ hs.paired, hs.accepts_eq, ht.accepts_eq]

theorem escape (g : Grammar) (s : String) : Judged (g.escape s) (g.agrees .code s) :=
  ⟨g.paired_escape s, g.accepts_escape .code s⟩

/-- Characters that code does not reserve may stand in a fence. -/
theorem of_plain (h : s.toList.all (· ∉ Grammar.code.reserved) = true) : Judged s true := by
  have hplain : ∀ c ∈ s.toList, c ∉ Grammar.code.reserved := fun c hc => by
    simpa using List.all_eq_true.1 h c hc
  exact ⟨.of_forall_ne fun c hc => Grammar.ne_backslash_of_not_mem (hplain c hc),
    Grammar.accepts_of_not_mem hplain⟩

theorem intercalate {α : Type} {sep : String} (hsep : Judged sep true) {xs : List α}
    {f : α → String} {p : α → Bool} (h : ∀ x ∈ xs, Judged (f x) (p x)) :
    Judged (sep.intercalate (xs.map f)) (xs.all p) := by
  induction xs with
  | nil => exact ⟨.nil, rfl⟩
  | cons x xs ih =>
    have hx := h x List.mem_cons_self
    have hxs := ih fun y hy => h y (List.mem_cons_of_mem x hy)
    by_cases hnil : xs = []
    · subst hnil
      simpa using hx
    · have hmap : xs.map f ≠ [] := by simpa using hnil
      rw [List.map_cons, String.intercalate_cons_of_ne_nil hmap, List.all_cons]
      simpa using (hx.append hsep).append hxs

/-- A code span has backticks, so it may not stand in a fence. -/
theorem codeSpan (code : String) : Judged (codeSpan code) false := by
  have hcode := escape .code code
  have htick : Judged "\x60" false := ⟨.plain (by decide) .nil, rfl⟩
  simpa [ChatMarkup.codeSpan] using (htick.append hcode).append htick

theorem linkTo (hs : Judged s a) (url : String) :
    Judged (linkTo s url) (a && Grammar.url.agrees .code url) := by
  have hopen : Judged "[" true := of_plain rfl
  have hmiddle : Judged "](" true := of_plain rfl
  have hclose : Judged ")" true := of_plain rfl
  simpa [ChatMarkup.linkTo] using
    (((hopen.append hs).append hmiddle).append (escape .url url)).append hclose

theorem marked {mark : String} (hmark : Judged mark true) (hs : Judged s a) :
    Judged (mark ++ s ++ mark) a := by
  simpa using (hmark.append hs).append hmark

end Judged

/-! ## Cells -/

/-- The words of the label that stands for an image, not escaped. -/
def imageWords (style : Style) (alt : Option String) : String :=
  (if style.imageMarker.isEmpty then "!" else style.imageMarker) ++ " " ++
    (alt.filter (!·.isEmpty)).getD "Image"

theorem imageLabel_eq (style : Style) (alt : Option String) :
    Rule.imageLabel style alt = Grammar.text.escape (imageWords style alt) := by
  rw [imageWords, Grammar.escape_append, Grammar.escape_append]
  rfl

/-- Whether Markdown allows a node in the cell of a table: text with marks, links and images, code
and html. -/
def Node.isCellText : Node → Bool
  | .leaf (.text _) | .leaf (.inlineCode _) | .leaf (.image ..) | .leaf (.html _) => true
  | .container .emphasis _ | .container .strong _ | .container .strikethrough _
  | .container (.link _) _ => true
  | _ => false

/-- Whether a node is written in a table without anything that has no place in a fence. Code and
html have backticks of their own; the address of a link and the words for an image are escaped as
outside the fence. -/
def Node.keepsFence (style : Style) : Node → Bool
  | .leaf (.inlineCode _) | .leaf (.html _) => false
  | .leaf (.image url alt) =>
    Grammar.text.agrees .code (imageWords style alt) && Grammar.url.agrees .code url
  | .container (.link url) _ => Grammar.url.agrees .code url
  | _ => true

/-- The rules inside a table, where text is escaped as code. -/
def tableRules : KindTable Rule :=
  standardRules.overlay (KindTable.empty.insert .text Rule.codeText)

theorem everywhereAll_eq_all (p : Node → Bool) (nodes : List Node) :
    Node.everywhereAll p nodes = nodes.all (Node.everywhere p) := by
  induction nodes with
  | nil => rfl
  | cons node rest ih => rw [Node.everywhereAll, ih, List.all_cons]

/-- **How what a cell holds is judged.** -/
theorem judged_writeNode {r : Renderer} (hr : r.rules = tableRules) (node : Node)
    (hn : node.everywhere Node.isCellText = true) :
    Judged (r.writeNode node) (node.everywhere (Node.keepsFence r.style)) := by
  have hinline : ∀ child ∈ node.children,
      Judged ((r.apply .inline).writeNode child) (child.everywhere (Node.keepsFence r.style)) := by
    intro child hchild
    have hsmaller := Node.sizeOf_lt_of_mem_children hchild
    exact judged_writeNode (r := r.apply .inline) hr child
      (Node.everywhere_of_part (.child hchild) hn)
  have hchildren : Judged ((r.apply .inline).write node.children)
      (Node.everywhereAll (Node.keepsFence r.style) node.children) := by
    rw [everywhereAll_eq_all]
    exact Judged.intercalate (Judged.of_plain rfl) hinline
  have hhere := ((Node.everywhere_iff node).1 hn).1
  rw [Renderer.writeNode_eq, hr]
  cases node with
  | leaf l =>
    cases l with
    | text s =>
      have htext := Judged.escape .code s
      rwa [Grammar.agrees_self] at htext
    | inlineCode code => exact Judged.codeSpan code
    | html source => exact Judged.codeSpan source
    | image url alt =>
      have hlabel := Judged.escape .text (imageWords r.style alt)
      rw [← imageLabel_eq] at hlabel
      exact hlabel.linkTo url
    | _ => cases hhere
  | container c children =>
    cases c with
    | emphasis => exact Judged.marked (Judged.of_plain rfl) hchildren
    | strong => exact Judged.marked (Judged.of_plain rfl) hchildren
    | strikethrough => exact Judged.marked (Judged.of_plain rfl) hchildren
    | link url =>
      rw [Node.everywhere, Bool.and_comm]
      exact hchildren.linkTo url
    | _ => cases hhere
termination_by sizeOf node

/-! ## Tables -/

/-- A cell of a table, from the line of text in it. -/
def cellOf (line : List Node) : Node :=
  .container .tableCell line

/-- A row of a table, from the lines of text in its cells. -/
def rowOf (cells : List (List Node)) : Node :=
  .container .tableRow (cells.map cellOf)

/-- A table, from the lines of text in the cells of its rows. -/
def tableOf (rows : List (List (List Node))) : Node :=
  .container .table (rows.map rowOf)

section Table

variable {r : Renderer}

theorem judged_cellOf (hr : r.rules = tableRules) {line : List Node}
    (hline : ∀ node ∈ line, node.everywhere Node.isCellText = true) :
    Judged (r.writeNode (cellOf line)) (line.all (Node.everywhere (Node.keepsFence r.style))) := by
  rw [Renderer.writeNode_eq, hr]
  exact Judged.intercalate (Judged.of_plain rfl) fun node hnode =>
    judged_writeNode (r := r.apply .inline) hr node (hline node hnode)

theorem judged_rowOf (hr : r.rules = tableRules) {cells : List (List Node)}
    (hcells : ∀ line ∈ cells, ∀ node ∈ line, node.everywhere Node.isCellText = true) :
    Judged (r.writeNode (rowOf cells))
      (cells.all (·.all (Node.everywhere (Node.keepsFence r.style)))) := by
  have hbar : Judged " | " true := Judged.of_plain rfl
  have hwritten : Judged ((r.apply (.joined " | ")).write (cells.map cellOf))
      (cells.all (·.all (Node.everywhere (Node.keepsFence r.style)))) := by
    rw [Renderer.write, List.map_map]
    exact Judged.intercalate hbar fun line hline =>
      judged_cellOf (r := r.apply (.joined " | ")) hr (hcells line hline)
  have hrow : r.writeNode (rowOf cells) =
      "| " ++ (r.apply (.joined " | ")).write (cells.map cellOf) ++ " |" := by
    rw [Renderer.writeNode_eq, hr]
    rfl
  have hstart : Judged "| " true := Judged.of_plain rfl
  have hend : Judged " |" true := Judged.of_plain rfl
  rw [hrow]
  simpa using (hstart.append hwritten).append hend

/-- **Which tables have a fence that holds what a fence may hold**: in what is written between the
fences, every backtick and every backslash belongs to a pair iff no cell has code or html, no link
or image has a parenthesis or a backtick in its address, and no image has words with characters
that only text reserves. -/
theorem accepts_table_iff (hr : r.rules = standardRules) {rows : List (List (List Node))}
    (hrows : ∀ cells ∈ rows, ∀ line ∈ cells, ∀ node ∈ line,
      node.everywhere Node.isCellText = true) :
    ∃ body, r.writeNode (tableOf rows) = "```\n" ++ body ++ "\n```" ∧
      (Grammar.code.accepts body.toList = true ↔
        ∀ cells ∈ rows, ∀ line ∈ cells, ∀ node ∈ line,
          node.everywhere (Node.keepsFence r.style) = true) := by
  let inside := r.apply (.andThen (.joined "\n") (.withRule .text Rule.codeText))
  have hinside : inside.rules = tableRules := by
    show r.rules.overlay (KindTable.empty.overlay _) = _
    rw [hr, KindTable.empty_overlay]
    rfl
  have hnewline : Judged "\n" true := Judged.of_plain rfl
  have hbody : Judged (inside.write (rows.map rowOf))
      (rows.all (·.all (·.all (Node.everywhere (Node.keepsFence r.style))))) := by
    rw [Renderer.write, List.map_map]
    exact Judged.intercalate hnewline fun cells hcells =>
      judged_rowOf hinside (hrows cells hcells)
  refine ⟨inside.write (rows.map rowOf), ?_, ?_⟩
  · rw [Renderer.writeNode_eq, hr]
    rfl
  · rw [hbody.accepts_eq]
    simp only [List.all_eq_true]

end Table

/-- In one cell a link to an address with a backslash around text with backticks, in the other an
image whose words have a stop, which keeps its backslash. -/
theorem accepts_table_iff_link_image :
    let link : Node := .container (.link "a\\b") [.container .strong [.text "\x60.\\"]]
    let image : Node := .leaf (.image "u" (some "a.b"))
    let rows : List (List (List Node)) := [[[link], []], [[.text "-", image]]]
    (∀ cells ∈ rows, ∀ line ∈ cells, ∀ node ∈ line, node.everywhere Node.isCellText = true) ∧
      ∃ body, (Renderer.top {} standardRules).writeNode (tableOf rows) =
          "```\n" ++ body ++ "\n```" ∧
        (Grammar.code.accepts body.toList = true ↔
          ∀ cells ∈ rows, ∀ line ∈ cells, ∀ node ∈ line,
            node.everywhere (Node.keepsFence {}) = true) := by
  intro link image rows
  have h : ∀ cells ∈ rows, ∀ line ∈ cells, ∀ node ∈ line,
      node.everywhere Node.isCellText = true := by decide
  exact ⟨h, accepts_table_iff (r := .top {} standardRules) rfl h⟩

/-- **Code in a cell breaks the fence of its table**: it is written with backticks that belong to no
pair. -/
theorem table_not_accepted_of_inlineCode :
    (Node.leaf (.inlineCode "x")).everywhere Node.isCellText = true ∧
    (Renderer.top {} standardRules).writeNode (tableOf [[[.leaf (.inlineCode "x")]]]) =
        "```\n" ++ "| \x60x\x60 |" ++ "\n```" ∧
      Grammar.code.accepts "| \x60x\x60 |".toList = false := by
  decide +kernel

end ChatMarkup

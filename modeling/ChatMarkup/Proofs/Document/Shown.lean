import ChatMarkup.Proofs.Document.Gathered

/-!
# Documents show the text of their events

A document shows just the text that its events tell, in the same order: each text and each code, and
a newline for each end of a line. What stands inside a block of code or of html, at any depth, is
source and not text. Nothing is asked of the events, so this holds also of text in tags that stay
open, in extensions and behind closings with nothing to close.

Results:
* `shown_step`, `shown_foldl_step`: an event adds the text that it tells at the end, if no tag
  around it holds source, and so does a list of events.
* `plainTexts_readsThrough`, `Tag.plainTexts_placements`: no text is lost on the way into a node.
* `plainTexts_blocksOf`: a document shows the text of its events.
-/

namespace ChatMarkup

/-! ## The text that events tell -/

/-- Whether a tag holds source, which is no text. -/
def Tag.holdsSource : Tag → Bool
  | .codeBlock _ | .htmlBlock => true
  | _ => false

/-- The text that content tells. -/
def Content.shown : Content → String
  | .text s | .code s => s
  | .softBreak | .hardBreak => "\n"
  | _ => ""

/-- The text that events tell inside the tags `around`, innermost first: what content tells while no
open tag holds source. -/
def shownWithin (around : List Tag) : List Event → String
  | [] => ""
  | .opening tag :: rest => shownWithin (tag :: around) rest
  | .closing :: rest => shownWithin around.tail rest
  | .content c :: rest =>
    (if around.any Tag.holdsSource then "" else c.shown) ++ shownWithin around rest

namespace Tree

mutual

/-- The text that a tree of events tells. -/
def shown : Tree → String
  | content c => c.shown
  | tagged tag inside => if tag.holdsSource then "" else shownAll inside

/-- The text that trees of events tell, one after the other. -/
def shownAll : List Tree → String
  | [] => ""
  | tree :: rest => tree.shown ++ shownAll rest

end

theorem shownAll_append (before after : List Tree) :
    shownAll (before ++ after) = shownAll before ++ shownAll after := by
  induction before with
  | nil => simp [shownAll]
  | cons tree rest ih => simp [shownAll, ih, String.append_assoc]

theorem shownAll_singleton (tree : Tree) : shownAll [tree] = tree.shown := by
  rw [shownAll, shownAll, String.append_empty]

/-! ## Growing trees -/

namespace Growth

/-- The text of growing trees, as if all open tags closed. -/
def shown (g : Growth) : String :=
  shownAll (finish g.inside g.around)

/-- The open tags, innermost first. -/
def tags (g : Growth) : List Tag :=
  g.around.map Prod.fst

/-- A level that closes is one tree of the level around it. -/
theorem shown_level (inside : List Tree) (tag : Tag) (before : List Tree)
    (around : List (Tag × List Tree)) :
    shown ⟨inside, (tag, before) :: around⟩ =
      shown ⟨tagged tag inside.reverse :: before, around⟩ := rfl

/-- Trees that are added inside the innermost tag add their text at the end, unless a tag around
them holds source. -/
theorem shown_add (new inside : List Tree) (around : List (Tag × List Tree)) :
    shown ⟨new ++ inside, around⟩ =
      shown ⟨inside, around⟩ ++
        if (tags ⟨inside, around⟩).any Tag.holdsSource then "" else shownAll new.reverse := by
  induction around generalizing new inside with
  | nil => simp [shown, tags, finish, shownAll_append]
  | cons level around ih =>
    obtain ⟨tag, before⟩ := level
    -- with and without the new trees, the innermost tag is one tree of the level around it
    have hlevel : ∀ trees, shown ⟨trees, (tag, before) :: around⟩ =
        shown ⟨before, around⟩ ++
          if (tags ⟨before, around⟩).any Tag.holdsSource then ""
          else (tagged tag trees.reverse).shown := fun trees => by
      rw [shown_level, ← List.singleton_append, ih, List.reverse_singleton, shownAll_singleton]
    rw [hlevel, hlevel, String.append_assoc, List.reverse_append]
    congr 1
    have htags : (tags ⟨inside, (tag, before) :: around⟩).any Tag.holdsSource =
        (tag.holdsSource || (tags ⟨before, around⟩).any Tag.holdsSource) := rfl
    rw [htags, Tree.shown, Tree.shown, shownAll_append]
    cases tag.holdsSource <;> cases (tags ⟨before, around⟩).any Tag.holdsSource <;> simp

/-- **An event adds the text that it tells at the end**, if no open tag holds source. -/
theorem shown_step (g : Growth) (event : Event) (rest : List Event) :
    (g.step event).shown ++ shownWithin (g.step event).tags rest =
      g.shown ++ shownWithin g.tags (event :: rest) := by
  cases event with
  | opening tag =>
    -- a tag with nothing inside it tells nothing
    have hopened : (g.step (.opening tag)).shown = g.shown := by
      rw [step, shown_level, List.reverse_nil, ← List.singleton_append, shown_add,
        List.reverse_singleton, shownAll_singleton]
      simp [Tree.shown, shownAll]
    rw [hopened]
    rfl
  | closing =>
    obtain ⟨inside, around⟩ := g
    cases around <;> rfl
  | content c =>
    have hadd := shown_add [content c] g.inside g.around
    rw [List.reverse_singleton, shownAll_singleton] at hadd
    rw [shownWithin, ← String.append_assoc]
    exact congrArg (· ++ shownWithin g.tags rest) hadd

/-- **Events add the text that they tell at the end.** -/
theorem shown_foldl_step (events : List Event) (g : Growth) :
    (events.foldl step g).shown = g.shown ++ shownWithin g.tags events := by
  induction events generalizing g with
  | nil => simp [shownWithin]
  | cons event rest ih => rw [List.foldl_cons, ih, shown_step]

end Growth

/-- The trees of events tell what the events tell. -/
theorem shownAll_ofEvents (events : List Event) :
    shownAll (ofEvents events) = shownWithin [] events := by
  have hrun := Growth.shown_foldl_step events Growth.start
  have hstart : Growth.start.shown = "" := rfl
  rw [hstart, String.empty_append] at hrun
  exact hrun

end Tree

/-! ## The text that nodes show -/

namespace Node

theorem plainTexts_append (before after : List Node) :
    plainTexts (before ++ after) = plainTexts before ++ plainTexts after := by
  induction before with
  | nil => simp [plainTexts]
  | cons node rest ih => simp [plainTexts, ih, String.append_assoc]

theorem plainTexts_singleton (node : Node) : plainTexts [node] = node.plainText := by
  simp [plainTexts]

end Node

open Node

/-- The text that nodes show is the same wherever texts are cut and paragraphs begin. -/
theorem plainTexts_readsThrough : ReadsThrough plainTexts (· ++ ·) where
  append := plainTexts_append
  texts s t rest := by simp [plainTexts, plainText, Leaf.plainText, String.append_assoc]
  paragraph children := by rw [plainTexts_singleton, plainText]

/-! ## What content and tags give -/

theorem Content.plainTexts_placements (c : Content) :
    plainTexts (c.placements.map Placement.node) = c.shown := by
  cases c <;> simp [Content.placements, Placement.inText, Placement.asBlock, plainTexts, plainText,
    Leaf.plainText, Content.shown]

theorem getD_shown? (s : String) : (shown? s).getD "" = s := by
  unfold shown?
  split
  · rename_i hempty
    simpa using hempty.symm
  · rfl

/-- **What a tag gives shows the text of its children**, or nothing if the tag holds source. -/
theorem Tag.plainTexts_placements (tag : Tag) (inside : List Tree) (children : List Node) :
    plainTexts ((tag.placements inside children).map Placement.node) =
      if tag.holdsSource then "" else plainTexts children := by
  have hcontainer : ∀ c : Container,
      plainTexts [Node.container c children] = plainTexts children := fun c => by
    rw [plainTexts_singleton, plainText]
  cases tag with
  | codeBlock info => rfl
  | htmlBlock => rfl
  | image form url =>
    -- an image shows the text of its children in their place
    show plainTexts [.leaf (.image url (shown? (plainTexts children)))] = plainTexts children
    rw [plainTexts_singleton, plainText, Leaf.plainText, getD_shown?]
  | extension =>
    show plainTexts ((children.map Placement.byKind).map Placement.node) = plainTexts children
    rw [List.map_map]
    exact congrArg plainTexts (List.map_id children)
  | _ => exact hcontainer _

/-! ## Whole documents -/

mutual

theorem Tree.plainTexts_placements (tree : Tree) :
    plainTexts (tree.placements.map Placement.node) = tree.shown := by
  cases tree with
  | content c => exact c.plainTexts_placements
  | tagged tag inside =>
    rw [Tree.placements, tag.plainTexts_placements, plainTexts_readsThrough.gather,
      plainTexts_placementsOf inside, Tree.shown]

/-- The nodes that trees of events give show the text that the trees tell. -/
theorem plainTexts_placementsOf (trees : List Tree) :
    plainTexts ((placementsOf trees).map Placement.node) = Tree.shownAll trees := by
  cases trees with
  | nil => rfl
  | cons tree rest =>
    rw [placementsOf, List.map_append, plainTexts_append, Tree.plainTexts_placements tree,
      plainTexts_placementsOf rest, Tree.shownAll]

end

/-- **A document shows the text of its events**, all of it and in order, whatever the events are:
the texts, codes and ends of lines that come while no block of code or of html is open. -/
theorem plainTexts_blocksOf (events : List Event) :
    plainTexts (blocksOf events) = shownWithin [] events := by
  rw [blocksOf, plainTexts_readsThrough.wrapRuns, List.reverse_nil, List.nil_append,
    plainTexts_placementsOf, Tree.shownAll_ofEvents]

/-- Text that is emphasised in a tag that stays open, around code that is none of it. -/
example :
    shownWithin [] [.closing, .opening .emphasis, .content (.text "a"), .opening (.codeBlock none),
      .opening .strong, .content (.text "b"), .closing, .closing, .content .softBreak] =
    "a\n" := by decide

end ChatMarkup

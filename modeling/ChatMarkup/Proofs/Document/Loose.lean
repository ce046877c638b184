import ChatMarkup.Proofs.Document.Alike

/-!
# Tight and loose documents

Where blocks are expected, a run of inline events stands for a paragraph. So a list can be told in
two ways: tight, with the text right inside its items, or loose, with paragraphs around the text.
Both are the same document. This is about the root and the tags that hold paragraphs, at any depth;
check boxes and math that stand in a run go into its paragraph and do not end it.

Results:
* `placements_of_role_inline`, `placements_of_role_aside`, `exists_placements_of_role_block`: what a
  tree of events places, by its role among other trees.
* `wrapRuns_placementsOf_wrapTrees`: paragraphs that are put around runs are the paragraphs that the
  runs would become.
* `blocksOf_loose`: balanced events without extensions give the same document when a paragraph is
  put around every run.
-/

namespace ChatMarkup

/-! ## Roles -/

/-- How a tree of events stands among others. -/
inductive Role
  /-- In a line of text. -/
  | inline
  /-- Between blocks. -/
  | block
  /-- It places nothing. -/
  | aside
  /-- What is inside it stands in its place. -/
  | spliced
deriving DecidableEq, Repr

/-- The role of content. -/
def Content.role : Content → Role
  | .text _ | .code _ | .inlineHtml _ | .footnoteReference _ | .softBreak | .hardBreak => .inline
  | .math _ | .task _ => .aside
  | .html _ | .rule => .block

/-- The role of a tag and what is inside it. -/
def Tag.role : Tag → Role
  | .emphasis | .strong | .strikethrough | .link .. | .image .. => .inline
  | .extension => .spliced
  | _ => .block

/-- Whether a run of inline events inside a tag can be told with a paragraph around it. -/
def Tag.holdsParagraphs : Tag → Bool
  | .blockquote | .item | .footnoteDefinition _ => true
  | _ => false

/-- What holds paragraphs reads no source and no line of text. -/
theorem Tag.plain_of_holdsParagraphs {tag : Tag} (h : tag.holdsParagraphs = true) :
    tag.holdsText = false ∧ tag.holdsSource = false := by
  cases tag with
  | blockquote | item | footnoteDefinition => exact ⟨rfl, rfl⟩
  | _ => exact absurd h nofun

namespace Tree

/-- The role of a tree. -/
def role : Tree → Role
  | content c => c.role
  | tagged tag _ => tag.role

/-- Whether a tree does not end a run of inline trees. -/
def joinsRun (tree : Tree) : Bool :=
  tree.role = .inline || tree.role = .aside

/-! ## Loosening -/

/-- A run in a paragraph, if there is anything inline in it. -/
def inParagraph (run : List Tree) : List Tree :=
  if run.any (·.role = .inline) then [tagged .paragraph run] else run

/-- Puts a paragraph around every run that is as long as it can be. `run` is the run that is open,
latest tree first. -/
def wrapTrees (run : List Tree) : List Tree → List Tree
  | [] => inParagraph run.reverse
  | tree :: rest =>
    if tree.joinsRun then wrapTrees (tree :: run) rest
    else inParagraph run.reverse ++ tree :: wrapTrees [] rest

mutual

/-- A tree with a paragraph around every run in a tag that holds paragraphs, at any depth. -/
def loose : Tree → Tree
  | content c => content c
  | tagged tag inside =>
    tagged tag (if tag.holdsParagraphs then wrapTrees [] (looseAll inside) else looseAll inside)

/-- The same for all trees of a list, but not for the runs of the list. -/
def looseAll : List Tree → List Tree
  | [] => []
  | tree :: rest => tree.loose :: looseAll rest

end

/-- The trees of a document with a paragraph around every run in a tag that holds paragraphs, and
around every run that stands in no tag. -/
def looseDocument (trees : List Tree) : List Tree :=
  wrapTrees [] (looseAll trees)

/-! ## What trees place -/

theorem placements_of_role_inline {tree : Tree} (h : tree.role = .inline) :
    tree.placements ≠ [] ∧ ∀ p ∈ tree.placements, p.inline = true := by
  cases tree with
  | content c =>
    cases c with
    | math | task | html | rule => exact absurd h nofun
    | _ => exact ⟨nofun, List.forall_mem_singleton.2 rfl⟩
  | tagged tag inside =>
    cases tag with
    | emphasis | strong | strikethrough | link | image =>
      exact ⟨nofun, List.forall_mem_singleton.2 rfl⟩
    | _ => exact absurd h nofun

theorem placements_of_role_aside {tree : Tree} (h : tree.role = .aside) : tree.placements = [] := by
  cases tree with
  | content c =>
    cases c with
    | math | task => rfl
    | _ => exact absurd h nofun
  | tagged tag inside => cases tag <;> exact absurd h nofun

theorem exists_placements_of_role_block {tree : Tree} (h : tree.role = .block) :
    ∃ node, tree.placements = [.asBlock node] := by
  cases tree with
  | content c =>
    cases c with
    | html | rule => exact ⟨_, rfl⟩
    | _ => exact absurd h nofun
  | tagged tag inside =>
    cases tag with
    | emphasis | strong | strikethrough | link | image | extension => exact absurd h nofun
    | _ => exact ⟨_, rfl⟩

theorem inline_of_mem_placements_of_joinsRun {tree : Tree} (h : tree.joinsRun = true) :
    ∀ p ∈ tree.placements, p.inline = true := by
  rcases Bool.or_eq_true _ _ ▸ h with hinline | haside
  · exact (placements_of_role_inline (of_decide_eq_true hinline)).2
  · rw [placements_of_role_aside (of_decide_eq_true haside)]
    exact List.forall_mem_nil _

theorem inline_of_mem_placementsOf_run {run : List Tree} (h : ∀ tree ∈ run, tree.joinsRun = true) :
    ∀ p ∈ placementsOf run, p.inline = true := by
  induction run with
  | nil => exact List.forall_mem_nil _
  | cons tree rest ih =>
    rw [placementsOf]
    have htree := inline_of_mem_placements_of_joinsRun (h tree List.mem_cons_self)
    exact List.forall_mem_append.2 ⟨htree, ih fun t ht => h t (List.mem_cons_of_mem tree ht)⟩

theorem placementsOf_ne_nil_of_any_inline {run : List Tree}
    (h : run.any (·.role = .inline) = true) : placementsOf run ≠ [] := by
  obtain ⟨tree, hmem, hinline⟩ := List.any_eq_true.1 h
  obtain ⟨before, after, rfl⟩ := List.append_of_mem hmem
  rw [placementsOf_append, placementsOf]
  have := (placements_of_role_inline (of_decide_eq_true hinline)).1
  simp [this]

end Tree

/-! ## Runs of placements -/

/-- A run of inline placements that ends where a block comes, or with the list, is a paragraph. -/
theorem wrapRuns_run_append {placed rest : List Placement} (run : List Node)
    (hplaced : ∀ p ∈ placed, p.inline = true) (hrest : ∀ p ∈ rest.head?, p.inline = false) :
    wrapRuns run (placed ++ rest) =
      paragraphOf (run.reverse ++ placed.map Placement.node) ++ wrapRuns [] rest := by
  induction placed generalizing run with
  | nil =>
    cases rest with
    | nil => simp [wrapRuns, paragraphOf]
    | cons p rest =>
      have hp := hrest p rfl
      simp [wrapRuns, hp, paragraphOf]
  | cons p placed ih =>
    have hp := hplaced p List.mem_cons_self
    have hrest := fun q hq => hplaced q (List.mem_cons_of_mem p hq)
    rw [List.cons_append, wrapRuns, if_pos hp, ih _ hrest]
    simp

namespace Tree

/-- A run in a paragraph of its own places the paragraph that the run would become. -/
theorem wrapRuns_placementsOf_inParagraph {run rest : List Tree}
    (hrun : ∀ tree ∈ run, tree.joinsRun = true)
    (hrest : ∀ p ∈ (placementsOf rest).head?, p.inline = false) :
    wrapRuns [] (placementsOf (inParagraph run ++ rest)) =
      wrapRuns [] (placementsOf (run ++ rest)) := by
  unfold inParagraph
  split
  · rename_i hany
    have hne : (placementsOf run).map Placement.node ≠ [] := by
      simpa using placementsOf_ne_nil_of_any_inline hany
    rw [placementsOf_append run, wrapRuns_run_append [] (inline_of_mem_placementsOf_run hrun) hrest,
      List.reverse_nil, List.nil_append, paragraphOf_of_ne_nil hne]
    rfl
  · rfl

/-- A block ends the run before it. -/
theorem wrapRuns_placementsOf_run_block {run : List Tree} {tree : Tree} {node : Node}
    (hrun : ∀ tree ∈ run, tree.joinsRun = true) (hnode : tree.placements = [.asBlock node])
    (rest : List Tree) :
    wrapRuns [] (placementsOf (run ++ tree :: rest)) =
      paragraphOf ((placementsOf run).map Placement.node) ++
        node :: wrapRuns [] (placementsOf rest) := by
  rw [placementsOf_append, placementsOf, hnode, List.singleton_append,
    wrapRuns_run_append [] (inline_of_mem_placementsOf_run hrun) (by simp [Placement.asBlock])]
  rfl

/-- **Paragraphs around runs are the paragraphs that the runs would become.** -/
theorem wrapRuns_placementsOf_wrapTrees {run trees : List Tree}
    (hrun : ∀ tree ∈ run, tree.joinsRun = true) (htrees : ∀ tree ∈ trees, tree.role ≠ .spliced) :
    wrapRuns [] (placementsOf (wrapTrees run trees)) =
      wrapRuns [] (placementsOf (run.reverse ++ trees)) := by
  have hopen : ∀ tree ∈ run.reverse, tree.joinsRun = true :=
    fun tree htree => hrun tree (List.mem_reverse.1 htree)
  induction trees generalizing run with
  | nil =>
    rw [wrapTrees, ← List.append_nil (inParagraph run.reverse)]
    exact wrapRuns_placementsOf_inParagraph hopen nofun
  | cons tree rest ih =>
    have hrest := fun t ht => htrees t (List.mem_cons_of_mem tree ht)
    rw [wrapTrees]
    split
    · rename_i hjoins
      have hmore : ∀ t ∈ tree :: run, t.joinsRun = true := List.forall_mem_cons.2 ⟨hjoins, hrun⟩
      simpa using ih hmore hrest fun t ht => hmore t (List.mem_reverse.1 ht)
    · rename_i hends
      -- a tree that ends the run and is not spliced is a block
      have hblock : tree.role = .block := by
        have hspliced := htrees tree List.mem_cons_self
        unfold joinsRun at hends
        cases hrole : tree.role <;> simp_all
      obtain ⟨node, hnode⟩ := exists_placements_of_role_block hblock
      have hhead : ∀ p ∈ (placementsOf (tree :: wrapTrees [] rest)).head?, p.inline = false := by
        simp [placementsOf, hnode, Placement.asBlock]
      calc wrapRuns [] (placementsOf (inParagraph run.reverse ++ tree :: wrapTrees [] rest))
        _ = wrapRuns [] (placementsOf (run.reverse ++ tree :: wrapTrees [] rest)) :=
          wrapRuns_placementsOf_inParagraph hopen hhead
        _ = paragraphOf ((placementsOf run.reverse).map Placement.node) ++
              node :: wrapRuns [] (placementsOf (wrapTrees [] rest)) :=
          wrapRuns_placementsOf_run_block hopen hnode _
        _ = paragraphOf ((placementsOf run.reverse).map Placement.node) ++
              node :: wrapRuns [] (placementsOf rest) := by
          rw [ih (List.forall_mem_nil _) hrest (List.forall_mem_nil _)]
          rfl
        _ = wrapRuns [] (placementsOf (run.reverse ++ tree :: rest)) :=
          (wrapRuns_placementsOf_run_block hopen hnode rest).symm

/-! ## Check boxes -/

theorem checkedOf?_inParagraph (run : List Tree) :
    checkedOf? (inParagraph run) = checkedOf? run := by
  unfold inParagraph
  split
  · rw [checkedOf?, checked?_tagged, if_neg (by decide)]
    rfl
  · rfl

/-- A check box that is put into a paragraph belongs to the same item. -/
theorem checkedOf?_wrapTrees (run trees : List Tree) :
    checkedOf? (wrapTrees run trees) = checkedOf? (run.reverse ++ trees) := by
  induction trees generalizing run with
  | nil => rw [wrapTrees, checkedOf?_inParagraph, List.append_nil]
  | cons tree rest ih =>
    rw [wrapTrees]
    split
    · rw [ih, List.reverse_cons, List.append_assoc, List.singleton_append]
    · simp only [checkedOf?_append, checkedOf?, ih, checkedOf?_inParagraph, List.reverse_nil,
        List.nil_append]

/-! ## Whole trees -/

theorem role_loose (tree : Tree) : tree.loose.role = tree.role := by
  cases tree <;> rfl

theorem sourceOf_looseAll (trees : List Tree) : sourceOf (looseAll trees) = sourceOf trees := by
  induction trees with
  | nil => rfl
  | cons tree rest ih =>
    cases tree with
    | content c => cases c <;> simp only [looseAll, loose, sourceOf, ih]
    | tagged tag inside => simp only [looseAll, loose, sourceOf, ih]

theorem opening_mem_events_of_role_spliced {tree : Tree} (h : tree.role = .spliced) :
    .opening .extension ∈ tree.events := by
  cases tree with
  | content c => cases c <;> exact absurd h nofun
  | tagged tag inside =>
    cases tag with
    | extension => exact List.mem_cons_self
    | _ => exact absurd h nofun

/-- Trees without extensions are not spliced, loosened or not. -/
theorem role_ne_spliced_of_mem_looseAll {trees : List Tree}
    (h : .opening .extension ∉ eventsOf trees) : ∀ tree ∈ looseAll trees, tree.role ≠ .spliced := by
  induction trees with
  | nil => exact List.forall_mem_nil _
  | cons tree rest ih =>
    rw [eventsOf, List.mem_append, not_or] at h
    refine List.forall_mem_cons.2 ⟨fun hspliced => ?_, ih h.2⟩
    rw [role_loose] at hspliced
    exact h.1 (opening_mem_events_of_role_spliced hspliced)

mutual

/-- **A loosened tree places the same nodes**, and has the same check box for the item around it. -/
theorem placements_loose {tree : Tree} (h : .opening .extension ∉ tree.events) :
    tree.loose.placements = tree.placements ∧ tree.loose.checked? = tree.checked? := by
  cases tree with
  | content c => exact ⟨rfl, rfl⟩
  | tagged tag inside =>
    have hinside : .opening .extension ∉ eventsOf inside := fun hmem =>
      h (List.mem_cons_of_mem _ (List.mem_append_left _ hmem))
    obtain ⟨hplaced, hchecked⟩ := placementsOf_looseAll hinside
    rw [loose, placements, placements, checked?_tagged, checked?_tagged]
    split
    · rename_i hholds
      obtain ⟨htext, hsource⟩ := Tag.plain_of_holdsParagraphs hholds
      have hwrapped := wrapRuns_placementsOf_wrapTrees (List.forall_mem_nil _)
        (role_ne_spliced_of_mem_looseAll hinside)
      rw [List.reverse_nil, List.nil_append, hplaced] at hwrapped
      have hbox : checkedOf? (wrapTrees [] (looseAll inside)) = checkedOf? inside := by
        rw [checkedOf?_wrapTrees, List.reverse_nil, List.nil_append, hchecked]
      have hgathered : tag.gather (placementsOf (wrapTrees [] (looseAll inside))) =
          tag.gather (placementsOf inside) := by
        rw [Tag.gather, Tag.gather, htext]
        exact hwrapped
      refine ⟨?_, by rw [hbox]⟩
      rw [hgathered, tag.placements_congr (fun hs => absurd hs (by simp [hsource])) hbox]
    · rw [hplaced, hchecked, tag.placements_congr (fun _ => sourceOf_looseAll inside) hchecked]
      exact ⟨rfl, rfl⟩

theorem placementsOf_looseAll {trees : List Tree} (h : .opening .extension ∉ eventsOf trees) :
    placementsOf (looseAll trees) = placementsOf trees ∧
      checkedOf? (looseAll trees) = checkedOf? trees := by
  cases trees with
  | nil => exact ⟨rfl, rfl⟩
  | cons tree rest =>
    rw [eventsOf, List.mem_append, not_or] at h
    obtain ⟨hplaced, hchecked⟩ := placements_loose h.1
    obtain ⟨hrest, hrestChecked⟩ := placementsOf_looseAll h.2
    constructor
    · rw [looseAll, placementsOf, hplaced, hrest, placementsOf]
    · rw [looseAll, checkedOf?, hchecked, hrestChecked, checkedOf?]

end

end Tree

/-- **Tight events and loose events are the same document.** Balanced events without extensions are
the events of their trees, and give the same nodes when a paragraph is put around every run of
inline events that stands in no tag or right inside a quote, an item or a footnote. -/
theorem blocksOf_loose {events : List Event} (hbalanced : Balanced events)
    (hplain : .opening .extension ∉ events) :
    Tree.eventsOf (Tree.ofEvents events) = events ∧
      blocksOf (Tree.eventsOf (Tree.looseDocument (Tree.ofEvents events))) = blocksOf events := by
  have hevents := Tree.eventsOf_ofEvents hbalanced
  rw [← hevents] at hplain
  refine ⟨hevents, ?_⟩
  have hwrapped := Tree.wrapRuns_placementsOf_wrapTrees (List.forall_mem_nil _)
    (Tree.role_ne_spliced_of_mem_looseAll hplain)
  rw [blocksOf, Tree.ofEvents_eventsOf, Tree.looseDocument, hwrapped, List.reverse_nil,
    List.nil_append, (Tree.placementsOf_looseAll hplain).1, blocksOf]

/-- A check list that is told tight, with a rule and a quote in its items, and math on its own. -/
theorem blocksOf_loose_checklist :
    let events : List Event :=
      [.opening (.list none), .opening .item, .content (.task true), .content (.text "a"),
        .opening .strong, .content (.code "b"), .closing, .content (.math "x"), .content .rule,
        .closing, .opening .item, .content (.inlineHtml "<i>"), .opening .blockquote,
        .content .hardBreak, .closing, .content (.task false), .closing, .closing,
        .content (.math "y"), .content (.html "<hr>"), .content .softBreak]
    let loosened : List Event :=
      [.opening (.list none), .opening .item, .opening .paragraph, .content (.task true),
        .content (.text "a"), .opening .strong, .content (.code "b"), .closing,
        .content (.math "x"), .closing, .content .rule, .closing, .opening .item,
        .opening .paragraph, .content (.inlineHtml "<i>"), .closing, .opening .blockquote,
        .opening .paragraph, .content .hardBreak, .closing, .closing, .content (.task false),
        .closing, .closing, .content (.math "y"), .content (.html "<hr>"), .opening .paragraph,
        .content .softBreak, .closing]
    Balanced events ∧ .opening .extension ∉ events ∧
      Tree.eventsOf (Tree.looseDocument (Tree.ofEvents events)) = loosened ∧
      blocksOf loosened = blocksOf events := by
  intro events loosened
  have hbalanced : Balanced events := by decide
  have hplain : .opening .extension ∉ events := by decide
  have hloose : Tree.eventsOf (Tree.looseDocument (Tree.ofEvents events)) = loosened := by decide
  exact ⟨hbalanced, hplain, hloose, hloose ▸ (blocksOf_loose hbalanced hplain).2⟩

end ChatMarkup

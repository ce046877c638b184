import ChatMarkup.Proofs.Document.Checks

/-!
# One check box

A check box in a list of events belongs to the innermost list item that is open there, however many
other tags are open inside the item. It changes the state of this item, if no later check box of the
item does, and nothing else of the document.

Results:
* `exists_openItem`: if any item is open after events, one of them is the innermost.
* `uncheckedAll_blocksOf_task`: a check box leaves the shape of the document alone.
* `lastCheck?_insert_task`, `checksWithin_insert_task`: a check box leaves all items alone to which
  it does not belong.
* `checksWithin_task`: a check box sets the state of its item and no other.
* `blocksOf_task`: the document with the check box and without it.
-/

namespace ChatMarkup

open Node

/-! ## The item of a check box -/

/-- A list item that is the innermost open one: the events before the one that opens it, those
behind it, and the tags that these leave open inside the item. -/
structure OpenItem where
  outer : List Event
  inner : List Event
  opened : List Tag
  stays : stillOpen? [] inner = some opened
  innermost : .item ∉ opened

namespace OpenItem

/-- All events up to where the item is the innermost open one. -/
def events (item : OpenItem) : List Event :=
  item.outer ++ .opening .item :: item.inner

/-- The item after more events that neither close it nor leave another item open inside it. -/
def append (item : OpenItem) (more : List Event) (opened : List Tag)
    (hstays : stillOpen? item.opened more = some opened) (hinnermost : .item ∉ opened) :
    OpenItem where
  outer := item.outer
  inner := item.inner ++ more
  opened := opened
  stays := by rw [stillOpen?_append, item.stays, Option.bind_some, hstays]
  innermost := hinnermost

theorem events_append (item : OpenItem) (more : List Event) (opened : List Tag)
    (hstays : stillOpen? item.opened more = some opened) (hinnermost : .item ∉ opened) :
    (item.append more opened hstays hinnermost).events = item.events ++ more := by
  simp [events, append]

/-- The tags inside an item stay inside it when others are around it. -/
theorem stillOpen?_inner (item : OpenItem) (around : List Tag) :
    stillOpen? (.item :: around) item.inner = some (item.opened ++ .item :: around) :=
  stillOpen?_append_around item.stays (.item :: around)

/-- When all tags inside an item have closed, closing the item leaves what is open around it. -/
theorem stillOpen?_closed (item : OpenItem) (h : item.opened = []) (around : List Tag) :
    stillOpen? around (.opening .item :: item.inner ++ [.closing]) = some around := by
  rw [List.cons_append, stillOpen?, stillOpen?_append, item.stillOpen?_inner, h]
  rfl

theorem openTags_events (item : OpenItem) :
    openTags [] item.events = item.opened ++ .item :: openTags [] item.outer := by
  rw [events, openTags_append]
  exact openTags_append_around item.stays (.item :: openTags [] item.outer)

end OpenItem

/-- **If an item is open after events, one of them is the innermost.** -/
theorem exists_openItem {events : List Event} (h : .item ∈ openTags [] events) :
    ∃ item : OpenItem, item.events = events := by
  induction hlength : events.length using Nat.strongRecOn generalizing events with
  | ind n ih =>
  -- the last event opens the item, leaves it as it was, or closes the innermost item inside it
  rcases List.eq_nil_or_concat events with rfl | ⟨before, event, rfl⟩
  · exact absurd h List.not_mem_nil
  rw [List.concat_eq_append] at h hlength ⊢
  rw [List.length_append, List.length_singleton] at hlength
  rw [openTags_append] at h
  cases event with
  | opening tag =>
    by_cases htag : tag = .item
    · subst htag
      exact ⟨⟨before, [], [], rfl, List.not_mem_nil⟩, rfl⟩
    · have hopen := (List.mem_cons.1 h).resolve_left (Ne.symm htag)
      obtain ⟨item, rfl⟩ := ih before.length (by omega) hopen rfl
      have hinnermost : .item ∉ tag :: item.opened := by
        simpa [Ne.symm htag] using item.innermost
      exact ⟨_, item.events_append [.opening tag] _ rfl hinnermost⟩
  | closing =>
    obtain ⟨item, rfl⟩ := ih before.length (by omega) (List.mem_of_mem_tail h) rfl
    cases hopened : item.opened with
    | cons tag opened =>
      have hinnermost : .item ∉ opened := fun hmem =>
        item.innermost (hopened ▸ List.mem_cons_of_mem tag hmem)
      exact ⟨_, item.events_append [.closing] opened (by rw [hopened]; rfl) hinnermost⟩
    | nil =>
      rw [item.openTags_events, hopened] at h
      have hshorter : item.outer.length < item.events.length := by
        simp [OpenItem.events]
      obtain ⟨around, haround⟩ := ih item.outer.length (by omega) h rfl
      have hstays := item.stillOpen?_closed hopened around.opened
      refine ⟨_, (around.events_append _ _ hstays around.innermost).trans ?_⟩
      rw [haround, OpenItem.events, List.append_assoc]
  | content c =>
    obtain ⟨item, rfl⟩ := ih before.length (by omega) h rfl
    exact ⟨_, item.events_append [.content c] _ rfl item.innermost⟩

/-! ## The shape -/

/-- The placement without the states of check boxes. -/
def Placement.unchecked (placed : Placement) : Placement :=
  ⟨placed.node.unchecked, placed.inline⟩

theorem uncheckedAll_eq_map (nodes : List Node) : uncheckedAll nodes = nodes.map unchecked := by
  induction nodes with
  | nil => rfl
  | cons node rest ih => rw [uncheckedAll, ih, List.map_cons]

theorem isInline_unchecked (node : Node) : node.unchecked.isInline = node.isInline := by
  cases node with
  | leaf l => rfl
  | container c children => cases c <;> rfl

mutual

theorem plainText_unchecked (node : Node) : node.unchecked.plainText = node.plainText := by
  cases node with
  | leaf l => rfl
  | container c children => rw [unchecked, plainText, plainText, plainTexts_uncheckedAll]

theorem plainTexts_uncheckedAll (nodes : List Node) :
    plainTexts (uncheckedAll nodes) = plainTexts nodes := by
  cases nodes with
  | nil => rfl
  | cons node rest =>
    rw [uncheckedAll, plainTexts, plainText_unchecked, plainTexts_uncheckedAll, plainTexts]

end

theorem mergeTexts_uncheckedAll (nodes : List Node) :
    mergeTexts (uncheckedAll nodes) = uncheckedAll (mergeTexts nodes) := by
  induction nodes with
  | nil => rfl
  | cons node rest ih =>
    rw [uncheckedAll]
    cases node with
    | container c children => simp only [unchecked, mergeTexts, uncheckedAll, ih]
    | leaf l =>
      cases l with
      | text s =>
        simp only [unchecked, mergeTexts, ih]
        -- the shape of what follows is a text just if it is one
        cases mergeTexts rest with
        | nil => rfl
        | cons next merged =>
          cases next with
          | leaf m => cases m <;> rfl
          | container d children => rfl
      | _ => simp only [unchecked, mergeTexts, uncheckedAll, ih]

theorem paragraphOf_uncheckedAll (run : List Node) :
    paragraphOf (uncheckedAll run) = uncheckedAll (paragraphOf run) := by
  cases run with
  | nil => rfl
  | cons node rest =>
    show [Node.container .paragraph (mergeTexts (uncheckedAll (node :: rest)))] =
      [Node.container .paragraph (uncheckedAll (mergeTexts (node :: rest)))]
    rw [mergeTexts_uncheckedAll]

theorem uncheckedAll_append (before after : List Node) :
    uncheckedAll (before ++ after) = uncheckedAll before ++ uncheckedAll after := by
  simp [uncheckedAll_eq_map]

theorem wrapRuns_unchecked (run : List Node) (placed : List Placement) :
    wrapRuns (uncheckedAll run) (placed.map Placement.unchecked) =
      uncheckedAll (wrapRuns run placed) := by
  have hclosed : ∀ run : List Node,
      paragraphOf (uncheckedAll run).reverse = uncheckedAll (paragraphOf run.reverse) := by
    intro run
    rw [← paragraphOf_uncheckedAll, uncheckedAll_eq_map, uncheckedAll_eq_map, List.map_reverse]
  induction placed generalizing run with
  | nil => exact hclosed run
  | cons p rest ih =>
    have hinline : p.unchecked.inline = p.inline := rfl
    rw [List.map_cons, wrapRuns, wrapRuns, hinline]
    cases p.inline with
    | true => exact ih (p.node :: run)
    | false =>
      rw [if_neg Bool.false_ne_true, if_neg Bool.false_ne_true, uncheckedAll_append, hclosed,
        uncheckedAll, ← ih]
      rfl

/-- The children that a tag gathers from shapes are the shapes of its children. -/
theorem Tag.gather_unchecked (tag : Tag) (placed : List Placement) :
    tag.gather (placed.map Placement.unchecked) = uncheckedAll (tag.gather placed) := by
  have hnodes : (placed.map Placement.unchecked).map Placement.node =
      uncheckedAll (placed.map Placement.node) := by
    rw [uncheckedAll_eq_map, List.map_map, List.map_map]
    rfl
  unfold Tag.gather
  split
  · rw [hnodes, mergeTexts_uncheckedAll]
  · exact wrapRuns_unchecked [] placed

/-- **The shape of what a tag gives** depends on the shapes of its children and, if it holds source,
on its source. -/
theorem Tag.unchecked_placements_congr (tag : Tag) {first second : List Tree}
    {children others : List Node} (hsource : sourceOf first = sourceOf second)
    (hchildren : uncheckedAll children = uncheckedAll others) :
    (tag.placements first children).map Placement.unchecked =
      (tag.placements second others).map Placement.unchecked := by
  have hcontainer : ∀ (c d : Container) (inline : Bool), c.unchecked = d.unchecked →
      [Placement.mk (.container c children) inline].map Placement.unchecked =
        [Placement.mk (.container d others) inline].map Placement.unchecked := by
    intro c d inline hshape
    simp only [List.map_cons, List.map_nil, Placement.unchecked, unchecked, hshape, hchildren]
  cases tag with
  | codeBlock info => rw [Tag.placements, Tag.placements, hsource]
  | htmlBlock => rw [Tag.placements, Tag.placements, hsource]
  | image form url =>
    have hshown : plainTexts children = plainTexts others := by
      rw [← plainTexts_uncheckedAll, hchildren, plainTexts_uncheckedAll]
    rw [Tag.placements, Tag.placements, hshown]
  | extension =>
    have hplaced : Placement.unchecked ∘ Placement.byKind = Placement.byKind ∘ unchecked := by
      funext node
      simp only [Function.comp, Placement.byKind, Placement.unchecked, isInline_unchecked]
    rw [Tag.placements, Tag.placements, List.map_map, List.map_map, hplaced, ← List.map_map,
      ← List.map_map, ← uncheckedAll_eq_map, ← uncheckedAll_eq_map, hchildren]
  | _ => exact hcontainer _ _ _ rfl

/-- Trees that place nodes of the same shapes, from the same source. -/
structure SameShape (first second : List Tree) : Prop where
  placed : (placementsOf first).map Placement.unchecked =
    (placementsOf second).map Placement.unchecked
  source : sourceOf first = sourceOf second

theorem SameShape.between {first second : List Tree} (h : SameShape first second)
    (before after : List Tree) :
    SameShape (before ++ first ++ after) (before ++ second ++ after) where
  placed := by simp only [placementsOf_append, List.map_append, h.placed]
  source := by simp only [sourceOf_append, h.source]

theorem SameShape.tagged {first second : List Tree} (h : SameShape first second) (tag : Tag) :
    SameShape [.tagged tag first] [.tagged tag second] where
  placed := by
    have hchildren : uncheckedAll (tag.gather (placementsOf first)) =
        uncheckedAll (tag.gather (placementsOf second)) := by
      rw [← tag.gather_unchecked, h.placed, tag.gather_unchecked]
    simpa [placementsOf, Tree.placements] using tag.unchecked_placements_congr h.source hchildren
  source := rfl

theorem SameShape.fill {first second : List Tree} (h : SameShape first second) (hole : Tree.Hole) :
    SameShape (hole.fill first) (hole.fill second) := by
  induction hole with
  | here before after => exact h.between before after
  | within before tag hole after ih =>
    have := (ih.tagged tag).between before after
    simpa [Tree.Hole.fill] using this

/-- **A check box leaves the shape of a document alone.** -/
theorem uncheckedAll_blocksOf_task (before after : List Event) (checked : Bool) :
    uncheckedAll (blocksOf (before ++ [.content (.task checked)] ++ after)) =
      uncheckedAll (blocksOf (before ++ after)) := by
  obtain ⟨hole, -, hfill⟩ := Tree.exists_hole before after
  have hbox : SameShape [.content (.task checked)] [] := ⟨rfl, rfl⟩
  have hmarked := hfill [.content (.task checked)]
  have hunmarked := hfill []
  rw [Tree.eventsOf, List.append_nil] at hunmarked
  rw [blocksOf, blocksOf, hunmarked, ← wrapRuns_unchecked, ← wrapRuns_unchecked,
    ← (hbox.fill hole).placed, ← hmarked]
  rfl

/-! ## The states -/

/-- The check boxes of an item that events reach are those that come later, before the others. -/
theorem lastCheck?_append (opened : List Tag) (before after : List Event) :
    lastCheck? opened (before ++ after) =
      ((stillOpen? opened before).bind (lastCheck? · after) <|> lastCheck? opened before) := by
  induction before generalizing opened with
  | nil => simp [stillOpen?, lastCheck?]
  | cons event rest ih =>
    cases event with
    | opening tag => exact ih (tag :: opened)
    | closing =>
      cases opened with
      | nil => rfl
      | cons tag opened => exact ih opened
    | content c =>
      rw [List.cons_append, lastCheck?, ih, lastCheck?, stillOpen?]
      cases (stillOpen? opened rest).bind (lastCheck? · after) <;> rfl

/-- **A check box is none of an item** that is closed at it or has another item open inside. -/
theorem lastCheck?_insert_task {opened : List Tag} {before : List Event}
    (h : ∀ still, stillOpen? opened before = some still → .item ∈ still) (checked : Bool)
    (after : List Event) :
    lastCheck? opened (before ++ .content (.task checked) :: after) =
      lastCheck? opened (before ++ after) := by
  rw [lastCheck?_append, lastCheck?_append]
  cases hstill : stillOpen? opened before with
  | none => rfl
  | some still => simp [lastCheck?, h still hstill]

/-- **A check box of an item is its last one**, unless a later one is. -/
theorem lastCheck?_task {opened still : List Tag} {before : List Event}
    (hstill : stillOpen? opened before = some still) (hinnermost : .item ∉ still) (checked : Bool)
    (after : List Event) :
    lastCheck? opened (before ++ .content (.task checked) :: after) =
      some ((lastCheck? still after).getD checked) := by
  rw [lastCheck?_append, hstill, Option.bind_some, lastCheck?, if_neg hinnermost]
  cases lastCheck? still after <;> rfl

/-- **A check box leaves all items alone** that are closed at it. -/
theorem checksWithin_insert_task {stack : List Tag} {before : List Event}
    (h : .item ∉ openTags stack before) (around : List Tag) (checked : Bool) (after : List Event) :
    checksWithin around (before ++ .content (.task checked) :: after) =
      checksWithin around (before ++ after) := by
  induction before generalizing stack around with
  | nil => rfl
  | cons event rest ih =>
    cases event with
    | opening tag =>
      rw [List.cons_append, List.cons_append, checksWithin, checksWithin, ih h]
      by_cases htag : tag = .item
      · subst htag
        -- the item does not stay open, so it is none that the check box could belong to
        have hclosed : ∀ still, stillOpen? [] rest = some still → .item ∈ still := by
          intro still hstill
          refine absurd ?_ h
          have hopen := openTags_append_around hstill (.item :: stack)
          rw [List.nil_append] at hopen
          rw [openTags, hopen]
          exact List.mem_append_right still List.mem_cons_self
        rw [lastCheck?_insert_task hclosed]
      · simp [htag]
    | closing => exact ih h around.tail
    | content c => exact ih h around

/-- Later events that have the same check boxes for all items that are open give the same states to
the items before them. -/
theorem exists_checksWithin_append (around : List Tag) (before : List Event)
    {first second : List Event}
    (h : ∀ opened, lastCheck? opened first = lastCheck? opened second) :
    ∃ earlier : List (Option Bool), earlier.length = (checksWithin around before).length ∧
      checksWithin around (before ++ first) =
        earlier ++ checksWithin (openTags around before) first ∧
      checksWithin around (before ++ second) =
        earlier ++ checksWithin (openTags around before) second := by
  induction before generalizing around with
  | nil => exact ⟨[], rfl, rfl, rfl⟩
  | cons event rest ih =>
    cases event with
    | opening tag =>
      obtain ⟨earlier, hlength, hfirst, hsecond⟩ := ih (tag :: around)
      have hown : lastCheck? [] (rest ++ first) = lastCheck? [] (rest ++ second) := by
        simp only [lastCheck?_append, h]
      let own := if tag = .item ∧ around.any Tag.hidesNodes = false then
        [lastCheck? [] (rest ++ first)] else []
      refine ⟨own ++ earlier, ?_, ?_, ?_⟩
      · simp only [own, checksWithin, List.length_append, hlength]
        split <;> rfl
      · rw [List.cons_append, checksWithin, hfirst, List.append_assoc]
        rfl
      · rw [List.cons_append, checksWithin, hsecond, ← hown, List.append_assoc]
        rfl
    | closing => exact ih around.tail
    | content c => exact ih around

/-- **A check box sets the state of the item** to which it belongs, unless a later one of the item
does, and no other state. -/
theorem checksWithin_task (item : OpenItem) (checked : Bool) (after : List Event) :
    checksWithin [] (item.events ++ .content (.task checked) :: after) =
      if (openTags [] item.outer).any Tag.hidesNodes then checksWithin [] (item.events ++ after)
      else (checksWithin [] (item.events ++ after)).set (checksWithin [] item.outer).length
        (some ((lastCheck? item.opened after).getD checked)) := by
  -- the items around this one have it open inside, so the check box is none of theirs
  have haround : ∀ opened,
      lastCheck? opened (.opening .item :: item.inner ++ .content (.task checked) :: after) =
        lastCheck? opened (.opening .item :: item.inner ++ after) := by
    intro opened
    refine lastCheck?_insert_task (fun still hstill => ?_) checked after
    rw [stillOpen?, item.stillOpen?_inner] at hstill
    rw [← Option.some.inj hstill]
    exact List.mem_append_right item.opened List.mem_cons_self
  have hinside : .item ∉ openTags [] item.inner := by
    have hopen := openTags_append_around item.stays []
    rw [List.append_nil, List.append_nil] at hopen
    rw [hopen]
    exact item.innermost
  obtain ⟨earlier, hlength, hmarked, hunmarked⟩ :=
    exists_checksWithin_append [] item.outer haround
  rw [OpenItem.events, List.append_assoc, List.append_assoc, hmarked, hunmarked, ← hlength,
    List.cons_append, List.cons_append, checksWithin, checksWithin,
    lastCheck?_task item.stays item.innermost, checksWithin_insert_task hinside]
  cases (openTags [] item.outer).any Tag.hidesNodes with
  | true => simp
  | false => simp

/-- An item in the document stands behind those that open before it. -/
theorem length_checksWithin_outer_lt (item : OpenItem) (after : List Event)
    (hshown : (openTags [] item.outer).any Tag.hidesNodes = false) :
    (checksWithin [] item.outer).length < (checksWithin [] (item.events ++ after)).length := by
  obtain ⟨earlier, hlength, hitem, -⟩ := exists_checksWithin_append [] item.outer
    fun opened => Eq.refl (lastCheck? opened (.opening .item :: item.inner ++ after))
  rw [OpenItem.events, List.append_assoc, hitem, List.cons_append, checksWithin, ← hlength]
  simp [hshown]

/-- **A check box touches one item only.** Wherever it comes in a list of events, the document is
the same with it and without it but for the states of list items. If no item is open at the check
box, the documents are the same. Otherwise it belongs to the innermost open item, which stands in
the document behind those that opened before: the item has the state of the check box, or that of
its last later check box, and all others are as they were. An item inside a tag that hides nodes is
no item of the document. -/
theorem blocksOf_task (before after : List Event) (checked : Bool) :
    let marked := blocksOf (before ++ [.content (.task checked)] ++ after)
    let unmarked := blocksOf (before ++ after)
    uncheckedAll marked = uncheckedAll unmarked ∧
      (.item ∉ openTags [] before → marked = unmarked) ∧
      (.item ∈ openTags [] before → ∃ item : OpenItem, item.events = before ∧
        if (openTags [] item.outer).any Tag.hidesNodes then marked = unmarked
        else
          let place := (checksAll (blocksOf item.outer)).length
          place < (checksAll unmarked).length ∧
            checksAll marked = (checksAll unmarked).set place
              (some ((lastCheck? item.opened after).getD checked))) := by
  intro marked unmarked
  have hshape : uncheckedAll marked = uncheckedAll unmarked :=
    uncheckedAll_blocksOf_task before after checked
  have hmarked : checksAll marked =
      checksWithin [] (before ++ .content (.task checked) :: after) := by
    rw [List.append_cons]
    exact checksAll_blocksOf _
  have hunmarked : checksAll unmarked = checksWithin [] (before ++ after) := checksAll_blocksOf _
  refine ⟨hshape, fun hnone => ?_, fun hopen => ?_⟩
  · refine eqAll_of_unchecked_eq hshape ?_
    rw [hmarked, hunmarked, checksWithin_insert_task hnone]
  obtain ⟨item, rfl⟩ := exists_openItem hopen
  refine ⟨item, rfl, ?_⟩
  rw [checksWithin_task, ← hunmarked] at hmarked
  cases hhidden : (openTags [] item.outer).any Tag.hidesNodes with
  | true =>
    rw [hhidden] at hmarked
    exact eqAll_of_unchecked_eq hshape hmarked
  | false =>
    rw [hhidden, ← checksAll_blocksOf item.outer] at hmarked
    refine ⟨?_, hmarked⟩
    rw [hunmarked, checksAll_blocksOf]
    exact length_checksWithin_outer_lt item after hhidden

/-- A check box after all items have closed, and one in strong text in an item inside an item, with
a later one of the same item behind it. -/
theorem blocksOf_task_nested_item :
    let inItem : List Event := [.closing, .opening (.list none), .opening .item,
      .opening (.list none), .opening .item, .opening .strong]
    let outside : List Event := inItem ++ [.closing, .closing, .closing, .closing]
    let after : List Event := [.content (.task false), .closing, .content (.text "a")]
    (.item ∉ openTags [] outside ∧
      blocksOf (outside ++ [.content (.task true)] ++ after) = blocksOf (outside ++ after)) ∧
    .item ∈ openTags [] inItem ∧
      ∃ item : OpenItem, item.events = inItem ∧
        if (openTags [] item.outer).any Tag.hidesNodes then
          blocksOf (inItem ++ [.content (.task true)] ++ after) = blocksOf (inItem ++ after)
        else
          let place := (checksAll (blocksOf item.outer)).length
          place < (checksAll (blocksOf (inItem ++ after))).length ∧
            checksAll (blocksOf (inItem ++ [.content (.task true)] ++ after)) =
              (checksAll (blocksOf (inItem ++ after))).set place
                (some ((lastCheck? item.opened after).getD true)) := by
  intro inItem outside after
  have hnone : .item ∉ openTags [] outside := by decide
  have hopen : .item ∈ openTags [] inItem := by decide
  exact ⟨⟨hnone, (blocksOf_task outside after true).2.1 hnone⟩, hopen,
    (blocksOf_task inItem after true).2.2 hopen⟩

end ChatMarkup

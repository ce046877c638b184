import ChatMarkup.Proofs.Render.Form
import ChatMarkup.Proofs.Render.Place

/-!
# Lists as outlines

A list whose items are paragraphs with lists under them is an outline: a line for each item, the
items of a list before those of the lists after it, each behind its marker and the further to the
right the more lists are around it.

Results:
* `IsOutline.writeNode_eq`: such a list is written as its lines, wherever it stands.
* `write_eq_outline`: so it is at the top of a document, in every style.
-/

namespace ChatMarkup

/-- A line of an outline: an item of a list. -/
structure OutlineLine where
  /-- How many lists there are around the list of the item. -/
  depth : Nat
  /-- The number of the item, if its list is numbered. -/
  number? : Option Nat
  /-- The state of the check box of the item, if it has one. -/
  checked? : Option Bool
  /-- What the item says. -/
  paragraph : Node
deriving DecidableEq

/-! ## The lines of a list -/

namespace Node

mutual

/-- The lines of a list with `depth` lists around it. -/
def outline (depth : Nat) : Node → List OutlineLine
  | container (.list ordered start) items => outlineItems depth ordered (start.getD 1) 0 items
  | _ => []

/-- The lines of the items of a list, of which the first is at `index` in the list. -/
def outlineItems (depth : Nat) (ordered : Bool) (start index : Nat) : List Node → List OutlineLine
  | [] => []
  | item :: rest =>
    item.outlineItem depth (if ordered then some (start + index) else none) ++
      outlineItems depth ordered start (index + 1) rest

/-- The lines of an item: one for the item itself, and those of the lists under it. -/
def outlineItem (depth : Nat) (number? : Option Nat) : Node → List OutlineLine
  | container (.listItem checked?) (paragraph :: lists) =>
    { depth, number?, checked?, paragraph } :: outlineLists (depth + 1) lists
  | _ => []

/-- The lines of lists, one list after the other. -/
def outlineLists (depth : Nat) : List Node → List OutlineLine
  | [] => []
  | list :: rest => list.outline depth ++ outlineLists depth rest

end

mutual

/-- A list whose items each are a line with lists under it. -/
inductive IsOutline (r : Renderer) : Node → Prop
  | list {ordered : Bool} {start : Option Nat} {items : List Node}
      (each : ∀ item ∈ items, IsOutlineItem r item) :
      IsOutline r (container (.list ordered start) items)

/-- An item that is a paragraph with lists under it. The paragraph shows something and has no white
space at its ends, and each of the lists has an item. -/
inductive IsOutlineItem (r : Renderer) : Node → Prop
  | item {checked? : Option Bool} {line lists : List Node}
      (inline : ∀ node ∈ line, node.everywhere isInline = true)
      (shown : r.write [container .paragraph line] ≠ "")
      (trimmed : Text.Trimmed (r.write [container .paragraph line]))
      (nonempty : ∀ list ∈ lists, list.children ≠ [])
      (sublists : ∀ list ∈ lists, IsOutline r list) :
      IsOutlineItem r (container (.listItem checked?) (container .paragraph line :: lists))

end

theorem outlineLists_eq_flatMap (depth : Nat) (lists : List Node) :
    outlineLists depth lists = lists.flatMap (outline depth) := by
  induction lists with
  | nil => rfl
  | cons list rest ih => rw [outlineLists, ih, List.flatMap_cons]

/-- The lines of items are those of each item, with the number that it has by its place. -/
theorem outlineItems_eq_flatten (depth : Nat) (ordered : Bool) (start index : Nat)
    (items : List Node) :
    outlineItems depth ordered start index items =
      (items.mapIdx fun i item =>
        item.outlineItem depth (if ordered then some (start + (index + i)) else none)).flatten := by
  induction items generalizing index with
  | nil => rfl
  | cons item rest ih =>
    have hplace (i : Nat) : index + 1 + i = index + (i + 1) := by omega
    rw [outlineItems, ih, List.mapIdx_cons, List.flatten_cons]
    simp only [hplace, Nat.add_zero]

/-- An item has a line at least. -/
theorem IsOutlineItem.outlineItem_ne_nil {r : Renderer} {item : Node} (h : item.IsOutlineItem r)
    (depth : Nat) (number? : Option Nat) : item.outlineItem depth number? ≠ [] := by
  cases h with
  | item => exact List.cons_ne_nil _ _

/-- A list with an item has a line at least. -/
theorem IsOutline.outline_ne_nil {r : Renderer} {list : Node} (h : list.IsOutline r)
    (hne : list.children ≠ []) (depth : Nat) : list.outline depth ≠ [] := by
  cases h with
  | @list ordered start items each =>
    obtain ⟨item, rest, rfl⟩ := List.exists_cons_of_ne_nil hne
    have hitem := (each item List.mem_cons_self).outlineItem_ne_nil depth
      (if ordered then some (start.getD 1 + 0) else none)
    rw [outline, outlineItems]
    exact List.append_ne_nil_of_left_ne_nil hitem _

end Node

/-! ## The text of a line -/

namespace OutlineLine

/-- What stands before the item: two spaces for each list around its own, its number or a bullet,
and its check box. Numbers have 64 bits, and after the greatest comes 0. -/
def start (style : Style) (line : OutlineLine) : String :=
  let indent := String.ofList (List.replicate (2 * line.depth) ' ')
  let marker := match line.number? with
    | some number => Nat.repr (number % UInt64.size) ++ style.numberSeparator
    | none => style.bullet
  let box := match line.checked? with
    | some true => "[x] "
    | some false => "[ ] "
    | none => ""
  Grammar.text.escape (indent ++ marker ++ " " ++ box)

/-- The line as it is written. -/
def text (r : Renderer) (line : OutlineLine) : String :=
  line.start r.style ++ r.write [line.paragraph]

end OutlineLine

/-! ## Writing -/

namespace Node

mutual

/-- Every line of an outline ends visibly, because every paragraph in it does. -/
theorem IsOutline.endsVisibly_of_mem {r : Renderer} {list : Node} (h : list.IsOutline r)
    (depth : Nat) : ∀ line ∈ list.outline depth, Text.EndsVisibly (line.text r) := by
  match h with
  | @IsOutline.list _ ordered start items each =>
    intro line hline
    rw [outline, outlineItems_eq_flatten] at hline
    obtain ⟨lines, hlines, hmem⟩ := List.mem_flatten.1 hline
    obtain ⟨index, hindex, rfl⟩ := List.mem_mapIdx.1 hlines
    exact (each items[index] (List.getElem_mem hindex)).endsVisibly_of_mem depth _ line hmem

theorem IsOutlineItem.endsVisibly_of_mem {r : Renderer} {item : Node} (h : item.IsOutlineItem r)
    (depth : Nat) (number? : Option Nat) :
    ∀ line ∈ item.outlineItem depth number?, Text.EndsVisibly (line.text r) := by
  match h with
  | @IsOutlineItem.item _ checked? paragraph lists inline shown trimmed nonempty sublists =>
    intro line hline
    rw [outlineItem, outlineLists_eq_flatMap] at hline
    rcases List.mem_cons.1 hline with rfl | hmem
    · exact (trimmed.endsVisibly shown).append _
    · obtain ⟨list, hlist, hmem⟩ := List.mem_flatMap.1 hmem
      exact (sublists list hlist).endsVisibly_of_mem (depth + 1) line hmem

end

/-- What is in an item is written as its paragraph and the lines of the lists under it, if each of
these lists has lines and is written as them. -/
theorem write_paragraph_lists {top r : Renderer} (htop : top.rules = standardRules)
    (hr : r.rules = standardRules) (hstyle : r.style = top.style) (hsep : r.separator = "\n")
    {line lists : List Node}
    (inline : ∀ node ∈ line, node.everywhere isInline = true)
    (hne : ∀ list ∈ lists, list.outline r.depth ≠ [])
    (hlists : ∀ list ∈ lists, r.writeNode list =
      "\n".intercalate ((list.outline r.depth).map (OutlineLine.text top))) :
    r.write (container .paragraph line :: lists) =
      "\n".intercalate (top.write [container .paragraph line] ::
        (outlineLists r.depth lists).map (OutlineLine.text top)) := by
  let groups := [top.write [container .paragraph line]] ::
    lists.map fun list => (list.outline r.depth).map (OutlineLine.text top)
  have hgroups : [] ∉ groups := by
    intro hmem
    obtain ⟨list, hlist, hnil⟩ := List.mem_map.1 ((List.mem_cons.1 hmem).resolve_left nofun)
    exact hne list hlist (List.map_eq_nil_iff.1 hnil)
  have hwritten : (container .paragraph line :: lists).map r.writeNode =
      groups.map "\n".intercalate := by
    rw [List.map_cons, List.map_cons, List.map_map, String.intercalate_singleton,
      Renderer.write_singleton, Renderer.writeNode_paragraph_eq hr htop hstyle inline]
    congr 1
    exact List.map_congr_left hlists
  rw [Renderer.write, hsep, hwritten, Text.intercalate_map_intercalate hgroups, List.flatten_cons,
    outlineLists_eq_flatMap, List.map_flatMap, List.flatMap_def]
  rfl

mutual

/-- **A list is written as its lines**, wherever it stands. -/
theorem IsOutline.writeNode_eq {top r : Renderer} (htop : top.rules = standardRules)
    (hr : r.rules = standardRules) (hstyle : r.style = top.style) {list : Node}
    (h : list.IsOutline top) :
    r.writeNode list = "\n".intercalate ((list.outline r.depth).map (OutlineLine.text top)) := by
  match h with
  | @IsOutline.list _ ordered start items each =>
    let lines (index : Nat) (item : Node) : List OutlineLine :=
      item.outlineItem r.depth (if ordered then some (start.getD 1 + (0 + index)) else none)
    have hlines : [] ∉ (items.mapIdx lines).map (List.map (OutlineLine.text top)) := by
      intro hmem
      obtain ⟨_, hmem, hnil⟩ := List.mem_map.1 hmem
      obtain ⟨index, hindex, rfl⟩ := List.mem_mapIdx.1 hmem
      exact (each items[index] (List.getElem_mem hindex)).outlineItem_ne_nil _ _
        (List.map_eq_nil_iff.1 hnil)
    rw [Renderer.writeNode_eq, hr]
    show r.follow Rule.list _ = _
    rw [Renderer.follow_list, Rule.listText_map_right, outline, outlineItems_eq_flatten,
      List.map_flatten, ← Text.intercalate_map_intercalate hlines]
    congr 1
    refine List.ext_getElem (by simp) fun index hleft hright => ?_
    have hindex : index < items.length := by simpa using hleft
    have hitem := (each items[index] (List.getElem_mem hindex)).itemStart_append_trim htop hr hstyle
      ordered (start.getD 1) index
    simpa [lines] using hitem

/-- An item is written as its lines. Nothing is trimmed off the text of what is in it, because its
paragraph comes first and begins visibly, and each of the lines ends so. -/
theorem IsOutlineItem.itemStart_append_trim {top r : Renderer} (htop : top.rules = standardRules)
    (hr : r.rules = standardRules) (hstyle : r.style = top.style) {item : Node}
    (h : item.IsOutlineItem top) (ordered : Bool) (start index : Nat) :
    Rule.itemStart r.depth (Rule.itemMarker r.style ordered start index) (Rule.checked? item) ++
        Text.trim ((r.apply (.andThen .nested (.joined "\n"))).write (Rule.itemContents item)) =
      "\n".intercalate
        ((item.outlineItem r.depth (if ordered then some (start + index) else none)).map
          (OutlineLine.text top)) := by
  match h with
  | @IsOutlineItem.item _ checked? line lists inline shown trimmed nonempty sublists =>
    let inside := r.apply (.andThen .nested (.joined "\n"))
    let below := (outlineLists (r.depth + 1) lists).map (OutlineLine.text top)
    have hlists : ∀ list ∈ lists, inside.writeNode list =
        "\n".intercalate ((list.outline inside.depth).map (OutlineLine.text top)) :=
      fun list hlist => @IsOutline.writeNode_eq top inside htop hr hstyle list (sublists list hlist)
    have hne : ∀ list ∈ lists, list.outline inside.depth ≠ [] := fun list hlist =>
      (sublists list hlist).outline_ne_nil (nonempty list hlist) inside.depth
    have hwritten : inside.write (container .paragraph line :: lists) =
        "\n".intercalate (top.write [container .paragraph line] :: below) :=
      @write_paragraph_lists top inside htop hr hstyle rfl line lists inline hne hlists
    have hvisible : ∀ text ∈ below, Text.EndsVisibly text := by
      intro text htext
      obtain ⟨line, hline, rfl⟩ := List.mem_map.1 htext
      rw [outlineLists_eq_flatMap] at hline
      obtain ⟨list, hlist, hmem⟩ := List.mem_flatMap.1 hline
      exact (sublists list hlist).endsVisibly_of_mem _ line hmem
    rw [Rule.itemContents, hwritten, Text.trim_eq_self (trimmed.intercalate_cons shown hvisible),
      Text.append_intercalate_cons, outlineItem, List.map_cons, OutlineLine.text, OutlineLine.start]
    rcases checked? with _ | _ | _ <;> cases ordered <;>
      simp [below, hstyle, Rule.itemStart, Rule.itemMarker, Rule.checked?, Rule.checkBox]

end

end Node

/-- **A list of lines is written as its outline.** For all lists in which each item is a paragraph
with lists under it, at any depth, and all styles: the list is written as its items, the items of a
list before those of the lists after it, each on a line of its own behind what stands before it. -/
theorem write_eq_outline (style : Style) {list : Node}
    (h : list.IsOutline (.top style standardRules)) :
    let top := Renderer.top style standardRules
    top.write [list] = "\n".intercalate ((list.outline 0).map (OutlineLine.text top)) := by
  intro top
  rw [Renderer.write_singleton]
  exact h.writeNode_eq rfl rfl rfl

/-- A list from 9 on with a check box, over a list with bullets, over a list without a start. -/
theorem write_eq_outline_three_deep :
    let top := Renderer.top {} standardRules
    let line (s : String) : Node := .container .paragraph [.text s]
    let inner : Node := .container (.list true none) [.container (.listItem none) [line "c."]]
    let middle : Node := .container (.list false none)
      [.container (.listItem (some false)) [line "b", inner],
        .container (.listItem none) [line "d"]]
    let list : Node := .container (.list true (some 9))
      [.container (.listItem (some true)) [line "a", middle],
        .container (.listItem none) [line "e"]]
    list.IsOutline top ∧
      top.write [list] = "\n".intercalate ((list.outline 0).map (OutlineLine.text top)) := by
  intro top line inner middle list
  have hitem (checked? : Option Bool) {s : String} {lists : List Node}
      (htext : top.write [line s] ≠ "" ∧ Text.Trimmed (top.write [line s]))
      (hlists : ∀ list ∈ lists, list.children ≠ [] ∧ list.IsOutline top) :
      Node.IsOutlineItem top (.container (.listItem checked?) (line s :: lists)) :=
    .item (List.forall_mem_singleton.2 rfl) htext.1 htext.2 (fun list h => (hlists list h).1)
      fun list h => (hlists list h).2
  have hinner : inner.IsOutline top :=
    .list (List.forall_mem_singleton.2 (hitem none (by decide +kernel) nofun))
  have hmiddle : middle.IsOutline top := .list <| List.forall_mem_cons.2
    ⟨hitem (some false) (by decide +kernel) (List.forall_mem_singleton.2 ⟨nofun, hinner⟩),
      List.forall_mem_singleton.2 (hitem none (by decide +kernel) nofun)⟩
  have hlist : list.IsOutline top := .list <| List.forall_mem_cons.2
    ⟨hitem (some true) (by decide +kernel) (List.forall_mem_singleton.2 ⟨nofun, hmiddle⟩),
      List.forall_mem_singleton.2 (hitem none (by decide +kernel) nofun)⟩
  exact ⟨hlist, write_eq_outline {} hlist⟩

end ChatMarkup

import ChatMarkup.Render.Standard

/-!
# The form of the standard rules

A standard rule for a container has the children written under one change, all together, and
finishes their text. Lists alone are written otherwise: each item is written by itself, and the
rule looks at the items once more when it puts their texts into lines. Only the rule for tables
changes the rules in force.

Results:
* `standard_container_cases`: the standard rule for a container has one of the two forms.
* `Renderer.follow_list`: how a list is written.
* `Renderer.writeNode_container_map`: to replace the parts of a container by others that are written
  alike makes no difference.
-/

namespace ChatMarkup

/-- The rules that a table lays over those in force around it. -/
def fenceRules : KindTable Rule :=
  KindTable.empty.insert .text Rule.codeText

/-- **The standard rule for a container** has all its children written under one change, or it is
the rule for lists. The change brings rules of its own in a table only. -/
theorem standard_container_cases {c : Container} {rule : Rule}
    (h : standardRules.get? c.kind = some rule) :
    (∃ (change : Change Rule) (finish : Scope → String → String),
        (change.rules = .empty ∨ c = .table ∧ change.rules = fenceRules) ∧
        ∀ scope children, rule (.container c children) scope =
          .ofChildren change (finish scope)) ∨
      ∃ ordered start, c = .list ordered start ∧ rule = Rule.list := by
  cases c with
  | list ordered start =>
    obtain rfl := Option.some.inj h
    exact .inr ⟨ordered, start, rfl, rfl⟩
  | table =>
    obtain rfl := Option.some.inj h
    exact .inl ⟨_, fun _ => _, .inr ⟨rfl, KindTable.empty_overlay _⟩, fun _ _ => rfl⟩
  | heading level =>
    obtain rfl := Option.some.inj h
    exact .inl ⟨_, fun scope => Rule.headingText scope.style level, .inl rfl, fun _ _ => rfl⟩
  | listItem _ | footnoteDefinition _ => cases h
  | _ =>
    obtain rfl := Option.some.inj h
    exact .inl ⟨_, fun _ => _, .inl rfl, fun _ _ => rfl⟩

/-! ## Lists -/

/-- **How a list is written**: each item by itself, one level deeper, and then put into lines. -/
theorem Renderer.follow_list (r : Renderer) (ordered : Bool) (start : Option Nat)
    (items : List Node) :
    r.follow Rule.list (.container (.list ordered start) items) =
      Rule.listText r.toScope ordered start items
        (items.map fun item =>
          (r.apply (.andThen .nested (.joined "\n"))).write (Rule.itemContents item)) := by
  show (Recipe.askEach _ _ _).run _ = _
  rw [Recipe.run_askEach, List.map_map]
  show Rule.listText r.toScope ordered start items _ = _
  congr 1
  exact List.attach_map_val (f := fun item =>
    (r.apply (.andThen .nested (.joined "\n"))).write (Rule.itemContents item))

/-- The lines of a list in which each item is written by itself. -/
theorem Rule.listText_map_right (scope : Scope) (ordered : Bool) (start : Option Nat)
    (items : List Node) (write : Node → String) :
    listText scope ordered start items (items.map write) =
      "\n".intercalate (items.mapIdx fun index item =>
        itemStart scope.depth (itemMarker scope.style ordered (start.getD 1) index)
            (checked? item) ++ Text.trim (write item)) := by
  unfold listText
  congr 1
  refine List.ext_getElem (by simp) fun index hleft hright => ?_
  simp

/-- The lines of a list depend on the check boxes of its items and on their texts. -/
theorem Rule.listText_map {f : Node → Node} (hf : ∀ item, checked? (f item) = checked? item)
    (scope : Scope) (ordered : Bool) (start : Option Nat) (items : List Node)
    (texts : List String) :
    listText scope ordered start (items.map f) texts =
      listText scope ordered start items texts := by
  unfold listText
  congr 1
  refine List.ext_getElem (by simp) fun index hleft hright => ?_
  simp [hf]

/-! ## Parts that are written alike -/

/-- Nodes that are written alike are written alike one after the other. -/
theorem Renderer.write_map {r : Renderer} {f : Node → Node} {nodes : List Node}
    (h : ∀ node ∈ nodes, r.writeNode (f node) = r.writeNode node) :
    r.write (nodes.map f) = r.write nodes := by
  unfold Renderer.write
  rw [List.map_map]
  congr 1
  exact List.map_congr_left h

/-- **To replace the parts of a container by others that are written alike makes no difference**, if
the container has its standard rule and the items of lists stay what they are. -/
theorem Renderer.writeNode_container_map {r : Renderer} {f : Node → Node} {c : Container}
    (hrule : r.rules.get? c.kind = standardRules.get? c.kind)
    (hchecked : ∀ item, Rule.checked? (f item) = Rule.checked? item)
    (hcontents : ∀ item, Rule.itemContents (f item) = (Rule.itemContents item).map f)
    {children : List Node}
    (h : ∀ change : Change Rule,
      (change.rules = .empty ∨ c = .table ∧ change.rules = fenceRules) →
        ∀ part, Node.Part part (.container c children) →
          (r.apply change).writeNode (f part) = (r.apply change).writeNode part) :
    r.writeNode (.container c (children.map f)) = r.writeNode (.container c children) := by
  rw [writeNode_eq, writeNode_eq]
  simp only [Node.kind, hrule]
  cases hget : standardRules.get? c.kind with
  | none =>
    refine write_map fun child hchild => ?_
    have halike := h .none (.inl rfl) child (.child hchild)
    rwa [apply_none] at halike
  | some rule =>
    rcases standard_container_cases hget with ⟨change, finish, hchange, hform⟩ |
      ⟨ordered, start, rfl, rfl⟩
    · have hchildren : (r.apply change).write (children.map f) = (r.apply change).write children :=
        write_map fun child hchild => h change hchange child (.child hchild)
      simp only [follow, hform, Recipe.run_ofChildren]
      exact congrArg (finish r.toScope) hchildren
    · simp only [follow_list, Rule.listText_map hchecked, List.map_map]
      congr 1
      refine List.map_congr_left fun item hitem => ?_
      simp only [Function.comp_apply, hcontents]
      exact write_map fun part hpart =>
        h _ (.inl rfl) part (Rule.part_of_mem_itemContents hitem hpart)

end ChatMarkup

import ChatMarkup.Proofs.Message.Pieces

/-!
# The length of messages

A message stays within the limit, unless it is one piece that nothing could bring under the limit.

Results:
* `unbreakable_of_mem_piecesOf`: a piece over the limit is a node that could not be divided, or a
  fragment that came out too long.
* `split_within_limit_or_unbreakable`: what a message can be, for every split.
-/

namespace ChatMarkup

variable {ρ : Type} [Writer ρ]

/-- A piece of a node that is over the limit and cannot be broken up. -/
inductive Splitter.Unbreakable (s : Splitter ρ) (r : ρ) (node : Node) : String → Prop
  /-- The whole text of a node that nothing divides. -/
  | whole (long : s.limit < Text.units (Writer.write r [node])) (undivided : s.Undivided r node) :
      Unbreakable s r node (Writer.write r [node])
  /-- A fragment of a node that is too long itself. -/
  | fragment {piece : String} {divider : Divider ρ}
      (long : s.limit < Text.units (Writer.write r [node]))
      (divides : s.dividers.get? node.kind = some divider)
      (mem : piece ∈ divider r node s.limit) (still : s.limit < Text.units piece) :
      Unbreakable s r node piece

/-- **A piece over the limit is one that cannot be broken up.** -/
theorem unbreakable_of_mem_piecesOf {s : Splitter ρ} {r : ρ} {node : Node} {piece : String}
    (h : piece ∈ s.piecesOf r node) (hlong : s.limit < Text.units piece) :
    s.Unbreakable r node piece := by
  obtain ⟨-, ⟨rfl, hfit | hundivided⟩ | ⟨hover, divider, hd, hmem⟩⟩ := piecesOf_cases h
  · omega
  · exact .whole hlong hundivided
  · exact .fragment hover hd hmem hlong

/-- **Every message is within the limit or is one unbreakable piece.** The messages are the pieces
of the document cut into consecutive groups, and a group whose message is over the limit has a
single piece, with no separator: a whole node that nothing divides, or one fragment of a node. -/
theorem split_within_limit_or_unbreakable (s : Splitter ρ) (r : ρ) (nodes : List Node) :
    ∃ groups, IsCut (nodes.flatMap (s.piecesOf r)) groups ∧
      s.split r nodes = groups.map messageOf ∧
      ∀ group ∈ groups, Text.units (messageOf group) ≤ s.limit ∨
        ∃ node ∈ nodes, ∃ piece, group = [piece] ∧ s.Unbreakable r node piece := by
  refine ⟨s.groups r nodes, groups_isCut s r nodes, rfl, fun group hg => ?_⟩
  cases finished_of_mem_groups hg with
  | fits _ hfit => exact Or.inl hfit
  | @alone piece hlong =>
    obtain ⟨node, hnode, hpiece⟩ := exists_node_of_mem_groups hg (List.mem_singleton_self piece)
    exact Or.inr ⟨node, hnode, piece, rfl, unbreakable_of_mem_piecesOf hpiece hlong⟩

end ChatMarkup

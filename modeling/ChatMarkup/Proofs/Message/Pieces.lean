import ChatMarkup.Message.Splitter
import ChatMarkup.Proofs.Message.Packing

/-!
# The pieces of a document

What a document gives to its messages, said without the packing: each top-level node gives its
pieces (`Splitter.piecesOf`), and the messages are groups of them. Nothing is assumed of the texts
that nodes have: everything here holds at places of any type, whatever is written there.

Results:
* `piecesOf_cases`: what a piece can be.
* `flatMap_pieces_blocks`: the blocks of a document carry exactly the pieces of its nodes.
* `messageOf_map_messageOf`: messages joined are their pieces joined.
* `units_messageOf_le_append`: a message gets no shorter by pieces on either side.
* `groups_isCut`: the groups that `Splitter.split` packs cut the pieces of the document.
* `split_eq_joined_cut`: the messages are the pieces of all nodes in document order, cut into
  consecutive groups and joined within each; none of them is empty.
-/

namespace ChatMarkup

variable {ρ : Type} [Writer ρ]

/-- `groups` cuts `pieces` into consecutive groups, none of which is empty. -/
structure IsCut (pieces : List String) (groups : List (List String)) : Prop where
  nil_notMem : [] ∉ groups
  flatten_eq : groups.flatten = pieces

/-- The pieces that a top-level node gives to the messages: none if it shows nothing; its whole text
if that fits a message, if nothing can divide its kind or if dividing it gave nothing; and otherwise
the fragments that it was divided into, without the empty ones. -/
def Splitter.piecesOf (s : Splitter ρ) (r : ρ) (node : Node) : List String :=
  let text := Writer.write r [node]
  if text = "" then []
  else if Text.units text ≤ s.limit then [text]
  else
    match s.dividers.get? node.kind with
    | none => [text]
    | some divider =>
      let fragments := divider r node s.limit
      if fragments = [] then [text] else fragments.filter (· ≠ "")

/-! ## Pieces of nodes and pieces of blocks -/

/-- An emptiness test on texts, as an inequality. -/
theorem filter_not_isEmpty (ss : List String) :
    ss.filter (!·.isEmpty) = ss.filter (· ≠ "") := by
  refine List.filter_congr fun s _ => ?_
  by_cases h : s = ""
  · simp [h]
  · simp [h]

/-- The block of a node carries the pieces of the node, and a node without a block has none. -/
theorem flatMap_pieces_block? (s : Splitter ρ) (r : ρ) (node : Node) :
    (s.block? r node).toList.flatMap Block.pieces = s.piecesOf r node := by
  unfold Splitter.block? Splitter.piecesOf
  by_cases hempty : Writer.write r [node] = ""
  · simp [hempty]
  have hne : ¬ (Writer.write r [node]).isEmpty = true := by simpa using hempty
  simp only [if_neg hempty, if_neg hne, Option.toList_some, List.flatMap_singleton]
  by_cases hfit : Text.units (Writer.write r [node]) ≤ s.limit
  · simp only [if_pos hfit, Block.pieces, List.isEmpty_nil, if_true]
  simp only [if_neg hfit, Splitter.fragments]
  cases s.dividers.get? node.kind with
  | none => simp [Block.pieces]
  | some divider =>
    simp only [Block.pieces, List.isEmpty_iff, filter_not_isEmpty]

/-- The blocks of a document carry the pieces of its nodes, in document order. -/
theorem flatMap_pieces_blocks (s : Splitter ρ) (r : ρ) (nodes : List Node) :
    (s.blocks r nodes).flatMap Block.pieces = nodes.flatMap (s.piecesOf r) := by
  unfold Splitter.blocks
  induction nodes with
  | nil => rfl
  | cons node rest ih =>
    rw [List.flatMap_cons, ← ih, ← flatMap_pieces_block?]
    cases h : s.block? r node with
    | none => simp [h]
    | some block => simp [h]

/-- What a block is packed as: what is told of it, the wish for a new message if it is too long for
one, and its pieces. -/
theorem Block.entries_cases {limit : Nat} {block : Block} {entry : Entry}
    (h : entry ∈ block.entries limit) :
    (∃ record, entry = .tell record ∧ record.severity ≠ .warning) ∨
      (entry = .close ∧ limit < block.units) ∨
      ∃ piece ∈ block.pieces, entry = .piece piece := by
  rcases List.mem_cons.1 h with rfl | h
  · exact .inl ⟨_, rfl, nofun⟩
  rcases List.mem_append.1 h with h | hpiece
  · rcases List.mem_append.1 h with hclose | hdivided
    · split at hclose
      · cases hclose
      · rename_i hlong
        exact .inr (.inl ⟨List.mem_singleton.1 hclose, Nat.lt_of_not_le hlong⟩)
    · split at hdivided
      · cases hdivided
      · exact .inl ⟨_, List.mem_singleton.1 hdivided, nofun⟩
  · obtain ⟨piece, hmem, rfl⟩ := List.mem_map.1 hpiece
    exact .inr (.inr ⟨piece, hmem, rfl⟩)

/-- What is packed of a block are its pieces: what is told of it and the wish for a new message are
no pieces. -/
theorem Block.filterMap_piece?_entries (limit : Nat) (block : Block) :
    (block.entries limit).filterMap Entry.piece? = block.pieces := by
  have hclose :
      (if block.units ≤ limit then [] else [Entry.close]).filterMap Entry.piece? = [] := by
    split <;> rfl
  have htell : (if block.fragments.isEmpty then []
      else [Entry.tell (.divided block.kind block.units block.fragments.length)]).filterMap
        Entry.piece? = [] := by
    split <;> rfl
  have hpieces : (block.pieces.map Entry.piece).filterMap Entry.piece? = block.pieces := by
    rw [List.filterMap_map]
    exact List.filterMap_some
  rw [entries, List.filterMap_cons_none rfl, List.filterMap_append, List.filterMap_append,
    hclose, htell, hpieces]
  rfl

/-- What is packed of a document are the pieces of its nodes. -/
theorem Splitter.filterMap_piece?_entries (s : Splitter ρ) (r : ρ) (nodes : List Node) :
    (s.entries r nodes).filterMap Entry.piece? = nodes.flatMap (s.piecesOf r) := by
  rw [entries, List.filterMap_flatMap, ← flatMap_pieces_blocks]
  congr 1
  funext block
  exact block.filterMap_piece?_entries s.limit

/-- Nothing divides a node: there is no divider for its kind, or dividing it gives nothing. -/
def Splitter.Undivided (s : Splitter ρ) (r : ρ) (node : Node) : Prop :=
  s.dividers.get? node.kind = none ∨
    ∃ divider, s.dividers.get? node.kind = some divider ∧ divider r node s.limit = []

/-- **What a piece can be**: never empty, it is the whole text of its node, which fits a message or
cannot be divided, or a fragment of a node that is too long. -/
theorem piecesOf_cases {s : Splitter ρ} {r : ρ} {node : Node} {piece : String}
    (h : piece ∈ s.piecesOf r node) :
    piece ≠ "" ∧
      ((piece = Writer.write r [node] ∧ (Text.units piece ≤ s.limit ∨ s.Undivided r node)) ∨
        (s.limit < Text.units (Writer.write r [node]) ∧
          ∃ divider, s.dividers.get? node.kind = some divider ∧
            piece ∈ divider r node s.limit)) := by
  unfold Splitter.piecesOf at h
  by_cases hempty : Writer.write r [node] = ""
  · simp [hempty] at h
  simp only [if_neg hempty] at h
  by_cases hfit : Text.units (Writer.write r [node]) ≤ s.limit
  · rw [if_pos hfit] at h
    obtain rfl := List.mem_singleton.1 h
    exact ⟨hempty, Or.inl ⟨rfl, Or.inl hfit⟩⟩
  rw [if_neg hfit] at h
  cases hd : s.dividers.get? node.kind with
  | none =>
    rw [hd] at h
    obtain rfl := List.mem_singleton.1 h
    exact ⟨hempty, Or.inl ⟨rfl, Or.inr (Or.inl hd)⟩⟩
  | some divider =>
    rw [hd] at h
    by_cases hnil : divider r node s.limit = []
    · simp only [if_pos hnil] at h
      obtain rfl := List.mem_singleton.1 h
      exact ⟨hempty, Or.inl ⟨rfl, Or.inr (Or.inr ⟨divider, hd, hnil⟩)⟩⟩
    · simp only [if_neg hnil] at h
      obtain ⟨hmem, hne⟩ := List.mem_filter.1 h
      exact ⟨by simpa using hne, Or.inr ⟨Nat.lt_of_not_le hfit, divider, rfl, hmem⟩⟩

/-! ## Joining groups -/

theorem messageOf_cons_of_ne_nil (piece : String) {group : List String} (h : group ≠ []) :
    messageOf (piece :: group) = piece ++ "\n\n" ++ messageOf group :=
  String.intercalate_cons_of_ne_nil h

theorem messageOf_append_of_ne_nil {first second : List String} (h₁ : first ≠ [])
    (h₂ : second ≠ []) :
    messageOf (first ++ second) = messageOf first ++ "\n\n" ++ messageOf second :=
  String.intercalate_append_of_ne_nil h₁ h₂

/-- A message is empty only if it has no piece or an empty one. -/
theorem messageOf_ne_empty {group : List String} (h : group ≠ [])
    (hne : ∀ piece ∈ group, piece ≠ "") : messageOf group ≠ "" :=
  Text.intercalate_ne_empty h hne

/-- Messages joined are their pieces joined, because no message is without pieces. -/
theorem messageOf_map_messageOf {groups : List (List String)} (h : [] ∉ groups) :
    messageOf (groups.map messageOf) = messageOf groups.flatten :=
  Text.intercalate_map_intercalate h

/-- A message gets no shorter by pieces before or after its own. -/
theorem units_messageOf_le_append (before group after : List String) :
    Text.units (messageOf group) ≤ Text.units (messageOf (before ++ group ++ after)) := by
  have hafter : Text.units (messageOf group) ≤ Text.units (messageOf (group ++ after)) := by
    by_cases hg : group = []
    · simp [hg, Text.units]
    by_cases ha : after = []
    · simp [ha]
    rw [messageOf_append_of_ne_nil hg ha, Text.units_append, Text.units_append]
    omega
  refine Nat.le_trans hafter ?_
  rw [List.append_assoc]
  by_cases hb : before = []
  · simp [hb]
  by_cases hg : group ++ after = []
  · simp [hg, Text.units]
  rw [messageOf_append_of_ne_nil hb hg, Text.units_append, Text.units_append]
  omega

/-! ## The accounts of a split -/

theorem finished_of_mem_groups {s : Splitter ρ} {r : ρ} {nodes : List Node} {group : List String}
    (h : group ∈ s.groups r nodes) : Finished s.limit group :=
  Filling.finished_of_mem_pack group h

/-- **The groups that make the messages cut the pieces of the document.** -/
theorem groups_isCut (s : Splitter ρ) (r : ρ) (nodes : List Node) :
    IsCut (nodes.flatMap (s.piecesOf r)) (s.groups r nodes) where
  nil_notMem hnil := (finished_of_mem_groups hnil).ne_nil rfl
  flatten_eq := by
    rw [Splitter.groups, Splitter.outputs, Filling.flatten_groups_pack, Filling.pieces_empty,
      List.nil_append, Splitter.filterMap_piece?_entries]

/-- Each piece of a message is a piece of a node. -/
theorem exists_node_of_mem_groups {s : Splitter ρ} {r : ρ} {nodes : List Node} {group : List String}
    (h : group ∈ s.groups r nodes) {piece : String} (hp : piece ∈ group) :
    ∃ node ∈ nodes, piece ∈ s.piecesOf r node := by
  have hmem : piece ∈ nodes.flatMap (s.piecesOf r) := by
    rw [← (groups_isCut s r nodes).flatten_eq]
    exact List.mem_flatten_of_mem h hp
  exact List.mem_flatMap.1 hmem

theorem ne_empty_of_mem_groups {s : Splitter ρ} {r : ρ} {nodes : List Node}
    {group : List String} (h : group ∈ s.groups r nodes) : ∀ piece ∈ group, piece ≠ "" := by
  intro piece hp
  obtain ⟨node, -, hpiece⟩ := exists_node_of_mem_groups h hp
  exact (piecesOf_cases hpiece).1

/-- **A split loses, repeats, moves and changes nothing.** No message is empty, the messages are the
pieces of all nodes in document order, cut into consecutive groups and joined within each, and all
messages joined are all pieces joined. -/
theorem split_eq_joined_cut (s : Splitter ρ) (r : ρ) (nodes : List Node) :
    (∀ message ∈ s.split r nodes, message ≠ "") ∧
      (∃ groups, IsCut (nodes.flatMap (s.piecesOf r)) groups ∧
        s.split r nodes = groups.map messageOf) ∧
      messageOf (s.split r nodes) = messageOf (nodes.flatMap (s.piecesOf r)) := by
  have hcut := groups_isCut s r nodes
  refine ⟨?_, ⟨s.groups r nodes, hcut, rfl⟩, ?_⟩
  · intro message hm
    obtain ⟨group, hg, rfl⟩ := List.mem_map.1 hm
    have hne : group ≠ [] := fun hc => hcut.nil_notMem (hc ▸ hg)
    exact messageOf_ne_empty hne (ne_empty_of_mem_groups hg)
  · unfold Splitter.split
    rw [messageOf_map_messageOf hcut.nil_notMem, hcut.flatten_eq]

end ChatMarkup

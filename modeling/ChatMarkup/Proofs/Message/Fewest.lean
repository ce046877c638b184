import ChatMarkup.Proofs.Message.Pieces
import ChatMarkup.Render.Standard

/-!
# As few messages as possible

When every node of a document fits a message, filling each message as far as it goes makes no more
messages than any other way to cut the document in its order.

The argument compares two cuts of different texts: the packing always works on an end of what the
other cut still has to place (`length_groups_le_of_suffix`). One group of the other cut can be taken
into the message that is being filled, because it fits a message and a shorter group fits too.

Results:
* `exists_groups_append_eq`: pieces that fit the message being filled all join it.
* `length_groups_le_of_suffix`: the packing stays ahead of any cut.
* `split_fewest`: the messages of a split are such a cut, and no other one has fewer groups.
-/

namespace ChatMarkup

variable {ρ : Type} [Writer ρ]

/-- The texts that the top-level nodes of a document show, one by one, without the empty ones. -/
def Writer.shown (r : ρ) (nodes : List Node) : List String :=
  (nodes.map fun node => Writer.write r [node]).filter (· ≠ "")

/-! ## The packing stays ahead -/

namespace Filling

variable {limit : Nat}

/-- The groups that pieces are packed into. -/
def groups (f : Filling limit) (pieces : List String) : List (List String) :=
  Output.groups (f.pack (pieces.map .piece))

theorem groups_cons_of_joins {f : Filling limit} {piece : String}
    (joins : f.unitsWith piece ≤ limit) (rest : List String) :
    f.groups (piece :: rest) = (f.add piece joins).groups rest := by
  rw [groups, List.map_cons, pack_cons, step_piece_of_joins joins]
  rfl

theorem groups_cons_of_full {f : Filling limit} {piece : String}
    (full : limit < f.unitsWith piece) (rest : List String) :
    f.groups (piece :: rest) = Output.groups f.close ++ (empty limit).groups (piece :: rest) := by
  rw [groups, List.map_cons, pack_piece_of_full full, Output.groups_append]
  rfl

/-- The first of some pieces that all fit into the message fits into it. -/
theorem unitsWith_le_of_fits {f : Filling limit} {piece : String} {rest : List String}
    (h : Text.units (messageOf (f.pieces ++ piece :: rest)) ≤ limit) :
    f.unitsWith piece ≤ limit := by
  have hle := units_messageOf_le_append [] (f.pieces ++ [piece]) rest
  rw [List.nil_append, List.append_assoc, List.singleton_append, ← unitsWith_eq] at hle
  exact Nat.le_trans hle h

/-- Pieces that fit the message being filled all join it. -/
theorem exists_groups_append_eq (group : List String) (f : Filling limit)
    (h : Text.units (messageOf (f.pieces ++ group)) ≤ limit) :
    ∃ filled : Filling limit, ∀ rest, f.groups (group ++ rest) = filled.groups rest := by
  induction group generalizing f with
  | nil => exact ⟨f, fun _ => rfl⟩
  | cons piece group ih =>
    have joins := unitsWith_le_of_fits h
    have hrest : Text.units (messageOf ((f.add piece joins).pieces ++ group)) ≤ limit := by
      simpa using h
    obtain ⟨filled, hfilled⟩ := ih (f.add piece joins) hrest
    refine ⟨filled, fun rest => ?_⟩
    rw [List.cons_append, groups_cons_of_joins joins, hfilled]

/-- The message being filled makes one group, and what it does not take is packed afresh. -/
theorem exists_suffix_length_groups_le (f : Filling limit) (pieces : List String) :
    ∃ later, later <:+ pieces ∧
      (f.groups pieces).length ≤ 1 + ((empty limit).groups later).length := by
  induction pieces generalizing f with
  | nil =>
    have hlast : (f.groups []).length ≤ 1 := f.length_groups_close_le_one
    exact ⟨[], List.suffix_refl [], Nat.le_trans hlast (Nat.le_add_right 1 _)⟩
  | cons piece rest ih =>
    by_cases joins : f.unitsWith piece ≤ limit
    · obtain ⟨later, hsuffix, hle⟩ := ih (f.add piece joins)
      refine ⟨later, hsuffix.trans (List.suffix_cons piece rest), ?_⟩
      rwa [groups_cons_of_joins joins]
    · refine ⟨piece :: rest, List.suffix_refl _, ?_⟩
      rw [groups_cons_of_full (Nat.lt_of_not_le joins), List.length_append]
      exact Nat.add_le_add_right f.length_groups_close_le_one _

/-- **The packing stays ahead.** However pieces are cut into groups that each fit a message, packing
any end of the pieces makes at most as many groups. -/
theorem length_groups_le_of_suffix (cut : List (List String))
    (hfits : ∀ group ∈ cut, Text.units (messageOf group) ≤ limit) (pieces : List String)
    (hsuffix : pieces <:+ cut.flatten) :
    ((empty limit).groups pieces).length ≤ cut.length := by
  induction cut generalizing pieces with
  | nil =>
    rw [List.suffix_nil.1 hsuffix]
    exact Nat.le_refl 0
  | cons group cut ih =>
    have hrest := fun g hg => hfits g (List.mem_cons_of_mem group hg)
    obtain ⟨passed, hpassed⟩ := hsuffix
    rw [List.flatten_cons] at hpassed
    rcases List.append_eq_append_iff.1 hpassed with ⟨part, hgroup, hpieces⟩ | ⟨part, -, hpieces⟩
    · -- part of the group is still to be placed: the message being filled takes all of it
      have hpart : Text.units (messageOf part) ≤ limit := by
        have hle := units_messageOf_le_append passed part []
        rw [List.append_nil, ← hgroup] at hle
        exact Nat.le_trans hle (hfits group List.mem_cons_self)
      obtain ⟨filled, hfilled⟩ := exists_groups_append_eq part (empty limit) hpart
      obtain ⟨later, hlater, hle⟩ := filled.exists_suffix_length_groups_le cut.flatten
      have hahead := ih hrest later hlater
      rw [hpieces, hfilled, List.length_cons]
      omega
    · -- the packing is past the group already
      have hahead := ih hrest pieces ⟨part, hpieces.symm⟩
      rw [List.length_cons]
      omega

end Filling

/-! ## Documents whose nodes all fit -/

section Fits

variable {s : Splitter ρ} {r : ρ} {nodes : List Node}

theorem piecesOf_of_fits {node : Node} (h : Text.units (Writer.write r [node]) ≤ s.limit) :
    s.piecesOf r node = [Writer.write r [node]].filter (· ≠ "") := by
  unfold Splitter.piecesOf
  by_cases hempty : Writer.write r [node] = ""
  · simp [hempty]
  · simp only [hempty, if_false, if_pos h, ne_eq, not_false_eq_true, decide_true,
      List.filter_cons_of_pos, List.filter_nil]

/-- Nodes that all fit a message give what they show, undivided. -/
theorem flatMap_piecesOf_of_fits
    (h : ∀ node ∈ nodes, Text.units (Writer.write r [node]) ≤ s.limit) :
    nodes.flatMap (s.piecesOf r) = Writer.shown r nodes := by
  unfold Writer.shown
  induction nodes with
  | nil => rfl
  | cons node rest ih =>
    rw [List.flatMap_cons, ih fun n hn => h n (List.mem_cons_of_mem node hn),
      piecesOf_of_fits (h node List.mem_cons_self), List.map_cons, ← List.filter_append,
      List.singleton_append]

/-- Nodes that all fit a message never end one before its time. -/
theorem groups_of_fits (h : ∀ node ∈ nodes, Text.units (Writer.write r [node]) ≤ s.limit) :
    s.groups r nodes = (Filling.empty s.limit).groups (Writer.shown r nodes) := by
  have hclose : .close ∉ s.entries r nodes := by
    intro hmem
    obtain ⟨block, hb, hclose⟩ := List.mem_flatMap.1 hmem
    obtain ⟨node, hn, hblock⟩ := List.mem_filterMap.1 hb
    simp only [Splitter.block?] at hblock
    split at hblock
    · cases hblock
    · have hunits : block.units ≤ s.limit := by
        rw [← Option.some.inj hblock]
        exact h node hn
      rcases block.entries_cases hclose with ⟨_, htold, -⟩ | ⟨-, hlong⟩ | ⟨piece, -, hpiece⟩
      · cases htold
      · omega
      · cases hpiece
  rw [Splitter.groups, Splitter.outputs, Filling.groups_pack_eq hclose,
    Splitter.filterMap_piece?_entries, flatMap_piecesOf_of_fits h]
  rfl

end Fits

/-- **A split makes as few messages as possible.** When every node fits a message, the messages cut
what the nodes show into groups that each fit one, and no cut into such groups has fewer. -/
theorem split_fewest {s : Splitter ρ} {r : ρ} {nodes : List Node}
    (hfit : ∀ node ∈ nodes, Text.units (Writer.write r [node]) ≤ s.limit) :
    (∃ groups, IsCut (Writer.shown r nodes) groups ∧
        (∀ group ∈ groups, Text.units (messageOf group) ≤ s.limit) ∧
        s.split r nodes = groups.map messageOf) ∧
      ∀ groups : List (List String), groups.flatten = Writer.shown r nodes →
        (∀ group ∈ groups, Text.units (messageOf group) ≤ s.limit) →
        (s.split r nodes).length ≤ groups.length := by
  have hcut := groups_isCut s r nodes
  rw [flatMap_piecesOf_of_fits hfit] at hcut
  refine ⟨⟨s.groups r nodes, hcut, fun group hg => ?_, rfl⟩, fun groups hflat hgroups => ?_⟩
  · cases finished_of_mem_groups hg with
    | fits _ hle => exact hle
    | @alone piece hlong =>
      have hmem : piece ∈ Writer.shown r nodes := by
        rw [← hcut.flatten_eq]
        exact List.mem_flatten_of_mem hg (List.mem_singleton_self piece)
      obtain ⟨node, hn, rfl⟩ := List.mem_map.1 (List.mem_filter.1 hmem).1
      rw [messageOf_singleton]
      exact hfit node hn
  · have hsuffix : Writer.shown r nodes <:+ groups.flatten := ⟨[], hflat.symm⟩
    rw [Splitter.split, List.length_map, groups_of_fits hfit]
    exact Filling.length_groups_le_of_suffix groups hgroups _ hsuffix

/-- Short paragraphs and a node that shows nothing: the packing fills the first message as far as it
goes, and the cut after the first paragraph does no better. -/
theorem split_fewest_short_paragraphs :
    let s : Splitter := { limit := 6 }
    let r := Renderer.top {} standardRules
    let nodes : List Node :=
      [.container .paragraph [.text "ab"], .leaf (.footnoteReference "note"),
        .container .paragraph [.text "😀"], .container .paragraph [.text "c"]]
    (∀ node ∈ nodes, Text.units (r.write [node]) ≤ s.limit) ∧
      [["ab"], ["😀", "c"]].flatten = Writer.shown r nodes ∧
      (s.split r nodes).length ≤ [["ab"], ["😀", "c"]].length := by
  intro s r nodes
  have hfit : ∀ node ∈ nodes, Text.units (r.write [node]) ≤ s.limit := by decide +kernel
  have hcut : [["ab"], ["😀", "c"]].flatten = Writer.shown r nodes := by decide +kernel
  exact ⟨hfit, hcut, (split_fewest (s := s) (r := r) hfit).2 _ hcut (by decide +kernel)⟩

end ChatMarkup

import ChatMarkup.Proofs.Message.Pieces
import ChatMarkup.Render.Standard

/-!
# Documents that go on

Messages can be sent while a document is still being written. What comes later changes no message
but the last one so far, which may still take more pieces, and not even that one if the next thing
to show is too long for a message, because then a new message begins in any case.

Results:
* `exists_entries_eq_tell_close_cons`: a block over the limit begins a new message.
* `split_append`: the messages of a document that goes on.
-/

namespace ChatMarkup

/-- The wish for a new message ends the one being filled, and nothing else is left of it. -/
theorem Filling.groups_pack_tell_close {limit : Nat} (f : Filling limit) (record : Record)
    (rest : List Entry) :
    Output.groups (f.pack (.tell record :: .close :: rest)) =
      Output.groups f.close ++
        Output.groups ((empty limit).pack (.tell record :: .close :: rest)) := by
  simp only [pack_cons, step, Output.groups_append, Output.groups_record_cons, Output.groups_nil,
    close_empty, List.nil_append]

section Split

variable {ρ : Type} [Writer ρ] {s : Splitter ρ} {r : ρ}

theorem block?_eq_none {node : Node} (h : Writer.write r [node] = "") : s.block? r node = none := by
  simp [Splitter.block?, h]

theorem exists_block?_eq_some {node : Node} (h : Writer.write r [node] ≠ "") :
    ∃ block, s.block? r node = some block ∧ block.text = Writer.write r [node] := by
  have hne : ¬ (Writer.write r [node]).isEmpty = true := by simpa using h
  unfold Splitter.block?
  rw [if_neg hne]
  exact ⟨_, rfl, rfl⟩

/-- **A block over the limit begins a new message**, whatever it is divided into. Nodes before it
that show nothing do not matter. -/
theorem exists_entries_eq_tell_close_cons {nodes : List Node} {node : Node}
    (hfirst : nodes.find? (fun node => Writer.write r [node] ≠ "") = some node)
    (hlong : s.limit < Text.units (Writer.write r [node])) :
    ∃ record rest, s.entries r nodes = .tell record :: .close :: rest := by
  obtain ⟨hshown, before, after, rfl, hbefore⟩ := List.find?_eq_some_iff_append.1 hfirst
  obtain ⟨block, hblock, htext⟩ := exists_block?_eq_some (s := s) (by simpa using hshown)
  have hnone : before.filterMap (s.block? r) = [] := by
    rw [List.filterMap_eq_nil_iff]
    intro other hother
    exact block?_eq_none (by simpa using hbefore other hother)
  have hover : ¬ block.units ≤ s.limit := by
    rw [Block.units, htext]
    exact Nat.not_le.2 hlong
  rw [Splitter.entries, Splitter.blocks, List.filterMap_append, hnone, List.nil_append,
    List.filterMap_cons_some hblock, List.flatMap_cons, Block.entries, if_neg hover]
  exact ⟨_, _, rfl⟩

/-- **When a document goes on, its messages stay**, except that the last one may take more pieces.
For all nodes, all nodes after them, all places, dividers and limits. And if the first of the
later nodes that shows anything is too long for a message, the document and what it goes on with
are split as if they were two. -/
theorem split_append (s : Splitter ρ) (r : ρ) (nodes more : List Node) :
    (s.split r nodes).dropLast <+: s.split r (nodes ++ more) ∧
      ∀ node, more.find? (fun node => Writer.write r [node] ≠ "") = some node →
        s.limit < Text.units (Writer.write r [node]) →
          s.split r (nodes ++ more) = s.split r nodes ++ s.split r more := by
  let ran := (Filling.empty s.limit).run (s.entries r nodes)
  let done := Output.groups ran.1
  have hnodes : s.groups r nodes = done ++ Output.groups ran.2.close :=
    Output.groups_append ran.1 ran.2.close
  have hall : s.groups r (nodes ++ more) =
      done ++ Output.groups (ran.2.pack (s.entries r more)) := by
    have hentries : s.entries r (nodes ++ more) = s.entries r nodes ++ s.entries r more := by
      rw [Splitter.entries, Splitter.blocks, List.filterMap_append, List.flatMap_append]
      rfl
    rw [Splitter.groups, Splitter.outputs, hentries, Filling.pack_append, Output.groups_append]
  constructor
  · -- what is not done makes one message at most, and that is the last one
    have hkept : (s.groups r nodes).dropLast <+: done := by
      rw [hnodes]
      rcases ran.2.groups_close_cases with hnone | hlast
      · rw [hnone, List.append_nil]
        exact List.dropLast_prefix done
      · exact ⟨[], by rw [List.append_nil, hlast, List.dropLast_concat]⟩
    have hprefix : (s.groups r nodes).dropLast <+: s.groups r (nodes ++ more) := by
      rw [hall]
      exact hkept.trans (List.prefix_append done _)
    unfold Splitter.split
    rw [← List.map_dropLast]
    exact hprefix.map messageOf
  · intro node hfirst hlong
    obtain ⟨record, rest, hrest⟩ := exists_entries_eq_tell_close_cons hfirst hlong
    have hgroups : s.groups r (nodes ++ more) = s.groups r nodes ++ s.groups r more := by
      rw [hall, hrest, Filling.groups_pack_tell_close, hnodes, Splitter.groups, Splitter.outputs,
        hrest, List.append_assoc]
    unfold Splitter.split
    rw [hgroups, List.map_append]

end Split

/-- Two messages, of which the second still has room: a short paragraph joins it, and a quote that
is divided does not, nor does what comes after the quote join a message before it. -/
theorem split_append_long_quote :
    let s : Splitter := { limit := 6 }
    let r := Renderer.top {} standardRules
    let paragraph : String → Node := fun text => .container .paragraph [.text text]
    let quoted : Node := .container .blockquote [paragraph "g", paragraph "h"]
    let nodes := [paragraph "ab", paragraph "cd", paragraph "e"]
    let more := [.leaf (.footnoteReference "note"), quoted, paragraph "f"]
    (s.split r nodes = ["ab\n\ncd", "e"] ∧
        s.split r (nodes ++ [paragraph "f"]) = ["ab\n\ncd", "e\n\nf"] ∧
        (s.split r nodes).dropLast <+: s.split r (nodes ++ [paragraph "f"])) ∧
      more.find? (fun node => r.write [node] ≠ "") = some quoted ∧
      s.limit < Text.units (r.write [quoted]) ∧
      s.split r (nodes ++ more) = s.split r nodes ++ s.split r more := by
  intro s r paragraph quoted nodes more
  have hfirst : more.find? (fun node => r.write [node] ≠ "") = some quoted := by decide +kernel
  have hlong : s.limit < Text.units (r.write [quoted]) := by decide +kernel
  have hstays := (split_append s r nodes [paragraph "f"]).1
  exact ⟨⟨by decide +kernel, by decide +kernel, hstays⟩, hfirst, hlong,
    (split_append s r nodes more).2 quoted hfirst hlong⟩

end ChatMarkup

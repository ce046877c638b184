import ChatMarkup.Message.Packing

/-!
# What packing puts out

A step of packing can do five things (`Filling.Steps`), and what is said about packing is said about
each of them first, and then about a run by induction on its entries.

Results:
* `Steps.flatten_groups`, `flatten_groups_pack`: a step, and a run, puts out all pieces in order,
  each once, but for those of the message that is still being filled.
* `pack_induction`: what holds of all that single steps put out, and of one after the other, holds
  of what a run puts out.
* `Steps.finished`, `finished_of_mem_pack`: a group fits a message, or is one piece over the limit.
* `groups_pack_eq`: what is told does not change the groups.
-/

namespace ChatMarkup

/-- The pieces of a finished message: some that fit a message together, or one that fits none. -/
inductive Finished (limit : Nat) : List String → Prop
  | fits {group : List String} (ne : group ≠ []) (le : Text.units (messageOf group) ≤ limit) :
      Finished limit group
  | alone {piece : String} (long : limit < Text.units piece) : Finished limit [piece]

theorem Finished.ne_nil {limit : Nat} {group : List String} (h : Finished limit group) :
    group ≠ [] := by
  cases h with
  | fits ne => exact ne
  | alone => exact List.cons_ne_nil _ []

namespace Filling

variable {limit : Nat}

/-! ## Steps -/

/-- What a step can do: `f.Steps entry outputs f'` puts out `outputs` for `entry`, and the message
that is being filled goes over from `f` to `f'`. -/
inductive Steps (f : Filling limit) : Entry → List Output → Filling limit → Prop
  | tell (record : Record) : Steps f (.tell record) [.record record] f
  | close : Steps f .close f.close (empty limit)
  /-- A piece fits into the message. -/
  | joins {piece : String} (joins : f.unitsWith piece ≤ limit) :
      Steps f (.piece piece) [] (f.add piece joins)
  /-- A piece does not fit any more, and begins the next message. -/
  | begins {piece : String} (full : limit < f.unitsWith piece) (fits : Text.units piece ≤ limit) :
      Steps f (.piece piece) f.close (start piece fits)
  /-- A piece fits no message, and becomes one of its own. -/
  | alone {piece : String} (long : limit < Text.units piece) :
      Steps f (.piece piece)
        (f.close ++ [.record (.overLong (Text.units piece) limit), .group [piece]]) (empty limit)

/-- A step does one of these. -/
theorem steps_step (f : Filling limit) (entry : Entry) :
    f.Steps entry (f.step entry).1 (f.step entry).2 := by
  cases entry with
  | tell record => exact .tell record
  | close => exact .close
  | piece s =>
    by_cases joins : f.unitsWith s ≤ limit
    · rw [step_piece_of_joins joins]
      exact .joins joins
    by_cases fits : Text.units s ≤ limit
    · rw [step, dif_neg joins, dif_pos fits]
      exact .begins (Nat.lt_of_not_le joins) fits
    · rw [step, dif_neg joins, dif_neg fits]
      exact .alone (Nat.lt_of_not_le fits)

/-! ## Nothing is lost -/

@[simp] theorem flatten_groups_close (f : Filling limit) :
    (Output.groups f.close).flatten = f.pieces := by
  unfold close
  split
  · rename_i h
    exact (List.isEmpty_iff.1 h).symm
  · exact List.append_nil f.pieces

/-- A message that is being filled makes one group at most. -/
theorem groups_close_cases (f : Filling limit) :
    Output.groups f.close = [] ∨ Output.groups f.close = [f.pieces] := by
  unfold close
  split
  · exact .inl rfl
  · exact .inr rfl

theorem length_groups_close_le_one (f : Filling limit) : (Output.groups f.close).length ≤ 1 := by
  rcases f.groups_close_cases with h | h <;> rw [h]
  · exact Nat.zero_le 1
  · exact Nat.le_refl 1

/-- **A step loses nothing**: the pieces that were being filled, and then that of the entry, are put
out or are being filled. -/
theorem Steps.flatten_groups {f f' : Filling limit} {entry : Entry} {outputs : List Output}
    (h : f.Steps entry outputs f') :
    (Output.groups outputs).flatten ++ f'.pieces = f.pieces ++ entry.piece?.toList := by
  cases h with
  | tell record => exact (List.append_nil f.pieces).symm
  | close => rw [flatten_groups_close, pieces_empty]; rfl
  | joins joins => rfl
  | begins full fits => rw [flatten_groups_close, pieces_start]; rfl
  | @alone piece long =>
    rw [Output.groups_append, List.flatten_append, flatten_groups_close, pieces_empty,
      List.append_nil]
    rfl

/-- A run loses nothing. -/
theorem flatten_groups_run (f : Filling limit) (entries : List Entry) :
    (Output.groups (f.run entries).1).flatten ++ (f.run entries).2.pieces =
      f.pieces ++ entries.filterMap Entry.piece? := by
  induction entries generalizing f with
  | nil => exact (List.append_nil f.pieces).symm
  | cons entry rest ih =>
    have hstep := (f.steps_step entry).flatten_groups
    have hrest : (entry :: rest).filterMap Entry.piece? =
        entry.piece?.toList ++ rest.filterMap Entry.piece? := by
      rw [List.filterMap_cons]
      cases entry.piece? <;> rfl
    rw [run_cons, Output.groups_append, List.flatten_append, List.append_assoc, ih,
      ← List.append_assoc, hstep, List.append_assoc, hrest]

/-- **Packing loses nothing**: the groups one after the other are all pieces, in order. -/
theorem flatten_groups_pack (f : Filling limit) (entries : List Entry) :
    (Output.groups (f.pack entries)).flatten = f.pieces ++ entries.filterMap Entry.piece? := by
  rw [pack, Output.groups_append, List.flatten_append, flatten_groups_close, flatten_groups_run]

/-! ## What is put out -/

/-- What holds of all that single steps put out, and of one after the other, holds of what a run
puts out. -/
theorem pack_induction {P : List Output → Prop} {entries : List Entry}
    (append : ∀ {first second}, P first → P second → P (first ++ second))
    (close : ∀ f : Filling limit, P f.close)
    (step : ∀ {f f' : Filling limit} {entry outputs}, entry ∈ entries →
      f.Steps entry outputs f' → P outputs)
    (f : Filling limit) : P (f.pack entries) := by
  induction entries generalizing f with
  | nil => exact close f
  | cons entry rest ih =>
    rw [pack_cons]
    have hrest : P ((f.step entry).2.pack rest) :=
      ih (fun hentry hsteps => step (List.mem_cons_of_mem entry hentry) hsteps) _
    exact append (step List.mem_cons_self (f.steps_step entry)) hrest

/-- A message that is closed is within the limit. -/
theorem finished_of_mem_close {f : Filling limit} {group : List String}
    (h : group ∈ Output.groups f.close) : Finished limit group := by
  unfold close at h
  split at h
  · cases h
  · rename_i hne
    obtain rfl := List.mem_singleton.1 h
    exact .fits (by simpa using hne) (f.units_eq ▸ f.units_le)

/-- **A step finishes messages that fit, and pieces that fit none.** -/
theorem Steps.finished {f f' : Filling limit} {entry : Entry} {outputs : List Output}
    (h : f.Steps entry outputs f') : ∀ group ∈ Output.groups outputs, Finished limit group := by
  intro group hgroup
  cases h with
  | tell record => cases hgroup
  | close => exact finished_of_mem_close hgroup
  | joins joins => cases hgroup
  | begins full fits => exact finished_of_mem_close hgroup
  | alone long =>
    rw [Output.groups_append] at hgroup
    rcases List.mem_append.1 hgroup with hclosed | hlong
    · exact finished_of_mem_close hclosed
    · obtain rfl := List.mem_singleton.1 hlong
      exact .alone long

/-- **Packing makes groups that fit a message, or of one piece that fits none**, whatever the order
of pieces and wishes for a new message. -/
theorem finished_of_mem_pack {f : Filling limit} {entries : List Entry} :
    ∀ group ∈ Output.groups (f.pack entries), Finished limit group := by
  refine pack_induction (P := fun outputs => ∀ group ∈ Output.groups outputs, Finished limit group)
    (fun hfirst hsecond group hgroup => ?_) (fun _ _ => finished_of_mem_close)
    (fun _ hsteps => hsteps.finished) f
  rw [Output.groups_append] at hgroup
  rcases List.mem_append.1 hgroup with h | h
  · exact hfirst group h
  · exact hsecond group h

/-- **What is told does not change the groups.** Where no new message is wished for, entries make
the groups that their pieces make. -/
theorem groups_pack_eq {entries : List Entry} (h : .close ∉ entries) (f : Filling limit) :
    Output.groups (f.pack entries) =
      Output.groups (f.pack ((entries.filterMap Entry.piece?).map .piece)) := by
  induction entries generalizing f with
  | nil => rfl
  | cons entry rest ih =>
    have hrest : .close ∉ rest := fun hmem => h (List.mem_cons_of_mem entry hmem)
    cases entry with
    | close => exact absurd List.mem_cons_self h
    | tell record =>
      rw [pack_cons, Output.groups_append, List.filterMap_cons]
      exact ih hrest f
    | piece s =>
      rw [pack_cons, Output.groups_append, ih hrest, ← Output.groups_append, ← pack_cons]
      rfl

end Filling

end ChatMarkup

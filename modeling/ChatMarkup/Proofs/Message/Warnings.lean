import ChatMarkup.Proofs.Message.Pieces

/-!
# Warnings about long messages

A step of packing that comes to a piece over the limit puts out a warning and then the piece as a
message of its own; no other step puts out a warning or a message over the limit. So after any steps
the warnings are those about the long messages, one for each and in their order.

Results:
* `Filling.Steps.warned`, `warned_pack`: a step, and a run, warns of what it puts out over the limit
  and of nothing else.
* `log_warns_of_long_messages`: the warnings of a split are one for each message over the limit.
-/

namespace ChatMarkup

/-- The warnings that were put out are those about the messages over the limit. -/
def Warned (limit : Nat) (outputs : List Output) : Prop :=
  (Output.records outputs).filter (·.severity = .warning) =
    (((Output.groups outputs).map messageOf).filter (limit < Text.units ·)).map fun message =>
      .overLong (Text.units message) limit

theorem Warned.append {limit : Nat} {first second : List Output} (hfirst : Warned limit first)
    (hsecond : Warned limit second) : Warned limit (first ++ second) := by
  unfold Warned at hfirst hsecond ⊢
  rw [Output.records_append, Output.groups_append, List.filter_append, hfirst, hsecond,
    List.map_append, List.filter_append, List.map_append]

/-! ## Packing -/

namespace Filling

variable {limit : Nat}

/-- A message that is closed needs no warning, and there is none. -/
theorem warned_close (f : Filling limit) : Warned limit f.close := by
  unfold close
  split
  · rfl
  · have hfits : ¬ limit < Text.units (messageOf f.pieces) := by
      rw [← f.units_eq]
      exact Nat.not_lt.2 f.units_le
    simp [Warned, hfits]

/-- **A step warns of a long message just when it puts one out**, unless it is told to warn. -/
theorem Steps.warned {f f' : Filling limit} {entry : Entry} {outputs : List Output}
    (h : f.Steps entry outputs f')
    (htold : ∀ record, entry = .tell record → record.severity ≠ .warning) :
    Warned limit outputs := by
  cases h with
  | tell record => simp [Warned, htold record rfl]
  | close => exact f.warned_close
  | joins joins => rfl
  | begins full fits => exact f.warned_close
  | @alone piece long =>
    refine f.warned_close.append ?_
    simp [Warned, Record.severity, long]

/-- A run warns of the long messages that it puts out, unless it is told to warn. -/
theorem warned_pack {entries : List Entry}
    (htold : ∀ record, .tell record ∈ entries → record.severity ≠ .warning) (f : Filling limit) :
    Warned limit (f.pack entries) :=
  pack_induction Warned.append warned_close
    (fun hentry hsteps => hsteps.warned fun record he => htold record (he ▸ hentry)) f

end Filling

/-! ## Splits -/

/-- **The warnings of a split are one for each message over the limit**, in the order of the
messages, whatever the nodes, their texts and the dividers are. Each warning has the length of its
message and the limit, and its text tells both. -/
theorem log_warns_of_long_messages {ρ : Type} [Writer ρ] (s : Splitter ρ) (r : ρ)
    (nodes : List Node) :
    let warnings := (s.log r nodes).filter (·.severity = .warning)
    let long := (s.split r nodes).filter (s.limit < Text.units ·)
    (warnings = long.map fun message => .overLong (Text.units message) s.limit) ∧
      warnings.map Record.message = long.map fun message =>
        "emitting chunk of " ++ Nat.repr (Text.units message) ++ " units over the limit of " ++
          Nat.repr s.limit := by
  intro warnings long
  have hwarnings : warnings = long.map fun message => .overLong (Text.units message) s.limit := by
    refine Filling.warned_pack (fun record hrecord => ?_) (.empty s.limit)
    obtain ⟨block, -, hrecord⟩ := List.mem_flatMap.1 hrecord
    rcases block.entries_cases hrecord with ⟨_, htell, htold⟩ | ⟨hclose, -⟩ | ⟨piece, -, hpiece⟩
    · cases htell
      exact htold
    · cases hclose
    · cases hpiece
  refine ⟨hwarnings, ?_⟩
  rw [hwarnings, List.map_map]
  rfl

end ChatMarkup

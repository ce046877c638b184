import ChatMarkup.Message.Record
import ChatMarkup.Text.Units

/-!
# Packing pieces into messages

Pieces of text are packed into messages in their order. A message takes pieces, with a blank line
between them, as long as its length stays within a limit, and the first piece that does not fit
begins the next message. A piece that is too long for any message becomes a message of its own, and
a warning goes out with it.

Packing goes step by step. A step takes one entry and puts out what is finished then: groups of
pieces, each of which makes a message, and records of what happened. A run takes one entry after the
other and at its end puts out the message that is still being filled.

Results:
* `units_messageOf_concat`: how long a message becomes when it takes one more piece.
* `Filling.unitsWith_eq`: the length that packing reckons with is that of the message.
* `Filling.pack_append`: what is put out for some entries does not depend on those after them.
* `Filling.pack_piece_of_full`: a piece that does not fit is packed as if it were the first.
-/

namespace ChatMarkup

/-- What is packed: a piece of text, the wish to begin a new message, or something to be told. -/
inductive Entry
  | piece (text : String)
  | close
  | tell (record : Record)
deriving DecidableEq, Repr

/-- The piece of an entry, if it is one. -/
def Entry.piece? : Entry → Option String
  | piece s => some s
  | close | tell _ => none

/-- What packing puts out: the pieces of a finished message, or a record. -/
inductive Output
  | group (pieces : List String)
  | record (record : Record)
deriving DecidableEq, Repr

namespace Output

/-- The pieces of a message, if that is what was put out. -/
def group? : Output → Option (List String)
  | group pieces => some pieces
  | record _ => none

/-- The record, if that is what was put out. -/
def record? : Output → Option Record
  | group _ => none
  | record r => some r

/-- The groups of pieces among what was put out. -/
def groups (outputs : List Output) : List (List String) :=
  outputs.filterMap group?

/-- The records among what was put out. -/
def records (outputs : List Output) : List Record :=
  outputs.filterMap record?

@[simp] theorem groups_nil : groups [] = [] := rfl

@[simp] theorem records_nil : records [] = [] := rfl

@[simp] theorem groups_group_cons (pieces : List String) (outputs : List Output) :
    groups (.group pieces :: outputs) = pieces :: groups outputs := rfl

@[simp] theorem groups_record_cons (r : Record) (outputs : List Output) :
    groups (.record r :: outputs) = groups outputs := rfl

@[simp] theorem records_group_cons (pieces : List String) (outputs : List Output) :
    records (.group pieces :: outputs) = records outputs := rfl

@[simp] theorem records_record_cons (r : Record) (outputs : List Output) :
    records (.record r :: outputs) = r :: records outputs := rfl

@[simp] theorem groups_append (first second : List Output) :
    groups (first ++ second) = groups first ++ groups second :=
  List.filterMap_append

@[simp] theorem records_append (first second : List Output) :
    records (first ++ second) = records first ++ records second :=
  List.filterMap_append

end Output

/-- The message made of a group of pieces. -/
def messageOf (group : List String) : String :=
  "\n\n".intercalate group

@[simp] theorem messageOf_nil : messageOf [] = "" := by
  simp [messageOf]

@[simp] theorem messageOf_singleton (s : String) : messageOf [s] = s := by
  simp [messageOf]

theorem units_messageOf_concat {group : List String} (h : group ≠ []) (s : String) :
    Text.units (messageOf (group ++ [s])) = Text.units (messageOf group) + 2 + Text.units s := by
  rw [messageOf, String.intercalate_append_of_ne_nil h (by simp)]
  simp [messageOf, show Text.units "\n\n" = 2 from by decide]

/-! ## Filling a message -/

/-- A message that is being filled: its pieces so far, and their length as one message, which is
within the limit. -/
structure Filling (limit : Nat) where
  pieces : List String
  units : Nat
  units_eq : units = Text.units (messageOf pieces)
  units_le : units ≤ limit

namespace Filling

variable {limit : Nat}

/-- A message without any piece yet. -/
def empty (limit : Nat) : Filling limit :=
  ⟨[], 0, by simp [Text.units], Nat.zero_le limit⟩

/-- The length of the message when a piece joins it. -/
def unitsWith (f : Filling limit) (piece : String) : Nat :=
  if f.pieces.isEmpty then Text.units piece else f.units + 2 + Text.units piece

theorem unitsWith_eq (f : Filling limit) (piece : String) :
    f.unitsWith piece = Text.units (messageOf (f.pieces ++ [piece])) := by
  unfold unitsWith
  split <;> rename_i h
  · simp [List.isEmpty_iff.1 h]
  · rw [units_messageOf_concat (by simpa using h), f.units_eq]

/-- The message with one more piece. -/
def add (f : Filling limit) (piece : String) (fits : f.unitsWith piece ≤ limit) : Filling limit :=
  ⟨f.pieces ++ [piece], f.unitsWith piece, f.unitsWith_eq piece, fits⟩

/-- A message that a piece begins. -/
def start (piece : String) (fits : Text.units piece ≤ limit) : Filling limit :=
  (empty limit).add piece fits

/-- What ends here: the message that is being filled, if it has a piece. -/
def close (f : Filling limit) : List Output :=
  if f.pieces.isEmpty then [] else [.group f.pieces]

@[simp] theorem pieces_empty (limit : Nat) : (empty limit).pieces = [] := rfl

@[simp] theorem pieces_add (f : Filling limit) (piece : String)
    (fits : f.unitsWith piece ≤ limit) : (f.add piece fits).pieces = f.pieces ++ [piece] := rfl

@[simp] theorem pieces_start (piece : String) (fits : Text.units piece ≤ limit) :
    (start piece fits).pieces = [piece] := rfl

@[simp] theorem unitsWith_empty (limit : Nat) (piece : String) :
    (empty limit).unitsWith piece = Text.units piece := rfl

@[simp] theorem close_empty (limit : Nat) : (empty limit).close = [] := rfl

/-! ## Steps and runs -/

/-- One step of packing: what is put out for an entry, and the message that is being filled after
it. -/
def step (f : Filling limit) : Entry → List Output × Filling limit
  | .tell record => ([.record record], f)
  | .close => (f.close, empty limit)
  | .piece s =>
    if joins : f.unitsWith s ≤ limit then ([], f.add s joins)
    else if fits : Text.units s ≤ limit then (f.close, start s fits)
    else (f.close ++ [.record (.overLong (Text.units s) limit), .group [s]], empty limit)

/-- The steps for some entries: what they put out, and the message that is being filled after
them. -/
def run (f : Filling limit) : List Entry → List Output × Filling limit
  | [] => ([], f)
  | entry :: rest =>
    let stepped := f.step entry
    let ran := stepped.2.run rest
    (stepped.1 ++ ran.1, ran.2)

/-- All that is put out for some entries, after which nothing more is packed. -/
def pack (f : Filling limit) (entries : List Entry) : List Output :=
  (f.run entries).1 ++ (f.run entries).2.close

@[simp] theorem run_nil (f : Filling limit) : f.run [] = ([], f) := rfl

theorem run_cons (f : Filling limit) (entry : Entry) (rest : List Entry) :
    f.run (entry :: rest) =
      ((f.step entry).1 ++ ((f.step entry).2.run rest).1, ((f.step entry).2.run rest).2) := rfl

@[simp] theorem pack_nil (f : Filling limit) : f.pack [] = f.close := rfl

theorem pack_cons (f : Filling limit) (entry : Entry) (rest : List Entry) :
    f.pack (entry :: rest) = (f.step entry).1 ++ (f.step entry).2.pack rest := by
  rw [pack, run_cons, List.append_assoc]
  rfl

/-- What is packed is not looked at again: the entries to come meet only the message that is being
filled. -/
theorem pack_append (f : Filling limit) (entries later : List Entry) :
    f.pack (entries ++ later) = (f.run entries).1 ++ (f.run entries).2.pack later := by
  induction entries generalizing f with
  | nil => rfl
  | cons entry rest ih =>
    rw [List.cons_append, pack_cons, ih, run_cons, List.append_assoc]

theorem step_piece_of_joins {f : Filling limit} {piece : String}
    (joins : f.unitsWith piece ≤ limit) : f.step (.piece piece) = ([], f.add piece joins) := by
  rw [step, dif_pos joins]

/-- A piece that does not fit ends the message that is being filled, and is packed as if it were the
first. -/
theorem pack_piece_of_full {f : Filling limit} {piece : String} (full : limit < f.unitsWith piece)
    (rest : List Entry) :
    f.pack (.piece piece :: rest) = f.close ++ (empty limit).pack (.piece piece :: rest) := by
  have hnot : ¬ f.unitsWith piece ≤ limit := Nat.not_le.2 full
  rw [pack_cons, pack_cons, step, dif_neg hnot]
  by_cases fits : Text.units piece ≤ limit
  · rw [dif_pos fits, step_piece_of_joins (f := empty limit) fits, List.nil_append]
    rfl
  · have hfirst : ¬ (empty limit).unitsWith piece ≤ limit := fits
    rw [dif_neg fits, step, dif_neg hfirst, dif_neg fits, close_empty, List.nil_append,
      List.append_assoc]

end Filling

end ChatMarkup

import ChatMarkup.Document.Kind

/-!
# Records of a split

What can be told about the way a document was split into messages: how long each block is, into how
many fragments one was divided, and which message is too long.

Out of scope: where records go, when they were made, and which of them somebody wants to see.
-/

namespace ChatMarkup

/-- How much a record matters. -/
inductive Severity
  | trace
  | debug
  | warning
deriving DecidableEq, Repr

/-- One thing that happened while a document was split. -/
inductive Record
  /-- A block was written, with so many units. -/
  | written (kind : Kind) (units : Nat)
  /-- A block was divided into so many fragments, empty ones included. -/
  | divided (kind : Kind) (units fragments : Nat)
  /-- A message is longer than the limit. -/
  | overLong (units limit : Nat)
deriving DecidableEq, Repr

namespace Record

/-- How much a record matters. -/
def severity : Record → Severity
  | written .. => .trace
  | divided .. => .debug
  | overLong .. => .warning

/-- The text of a record. -/
def message : Record → String
  | written kind units => kind.name ++ " block of " ++ Nat.repr units ++ " units"
  | divided kind units fragments =>
    "split " ++ kind.name ++ " block of " ++ Nat.repr units ++ " units into " ++
      Nat.repr fragments ++ " fragments"
  | overLong units limit =>
    "emitting chunk of " ++ Nat.repr units ++ " units over the limit of " ++ Nat.repr limit

end Record

end ChatMarkup

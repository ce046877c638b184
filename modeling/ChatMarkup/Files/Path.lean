import ChatMarkup.Files.Folder

/-!
# Following paths

A path leads from the folder where it starts, name by name, to a file or a folder. It can fail to,
and a reader of the file can fail after that; each failure has a text and some have a number by
which systems know them.

Out of scope: failures that come from more than the path and what it leads to, such as permissions
that are missing or a device that does not answer.
-/

namespace ChatMarkup.Files

/-- Why a file cannot be read. -/
inductive Failure
  | nulInName
  | nameTooLong
  | notFound
  | notAFolder
  | isAFolder
  | notUnicode
deriving DecidableEq, Repr

/-- What a system says of a failure. -/
def Failure.message : Failure → String
  | nulInName => "file name contained an unexpected NUL byte"
  | nameTooLong => "File name too long (os error 36)"
  | notFound => "No such file or directory (os error 2)"
  | notAFolder => "Not a directory (os error 20)"
  | isAFolder => "Is a directory (os error 21)"
  | notUnicode => "stream did not contain valid UTF-8"

/-! ## Names -/

/-- The names between the slashes of a path. -/
def namesOf (path : String) : List String :=
  (path.toList.splitOn '/').map String.ofList

/-- A straight way with one more name: a single dot and an empty name lead nowhere, and two dots
take back the name before them. -/
def straighten (names : List String) (name : String) : List String :=
  if name = "." || name = "" then names
  else if name = ".." then names.dropLast
  else names ++ [name]

/-- The names that a path leads through when it goes straight. -/
def straightNames (path : String) : List String :=
  (namesOf path).foldl straighten []

/-- The longest path, in bytes. -/
def maxPathBytes : Nat := 4095

/-- The longest name of a file or folder, in bytes. -/
def maxNameBytes : Nat := 255

/-- Where a path stands: an entry, and the folders around it, innermost first. -/
structure Place where
  here : Entry
  around : List Entry

namespace Place

/-- The place around a place. The outermost folder is around itself. -/
def up (place : Place) : Place :=
  match place.around with
  | [] => place
  | outer :: rest => ⟨outer, rest⟩

/-- The folder that is around everything. -/
def root (place : Place) : Place :=
  match place.around.getLast? with
  | none => place
  | some outermost => ⟨outermost, []⟩

/-- One name further. -/
def step (place : Place) (name : String) : Except Failure Place :=
  match place.here with
  | .file _ => throw .notAFolder
  | .folder entries =>
    if name = "." || name = "" then return place
    else if name = ".." then return place.up
    else if name.utf8ByteSize > maxNameBytes then throw .nameTooLong
    else
      match entries.lookup name with
      | none => throw .notFound
      | some entry => return ⟨entry, place.here :: place.around⟩

/-- The place that a path leads to. Names are separated by slashes; a slash at the start leads to
the root, and one at the end asks for a folder. -/
def follow (place : Place) (path : String) : Except Failure Place :=
  if '\x00' ∈ path.toList then throw .nulInName
  else if path.isEmpty then throw .notFound
  else if path.utf8ByteSize > maxPathBytes then throw .nameTooLong
  else
    let start := if path.toList.head? = some '/' then place.root else place
    (namesOf path).foldlM step start

/-- The text of the file that a path leads to. -/
def read (place : Place) (path : String) : Except Failure String := do
  match (← place.follow path).here with
  | .folder _ => throw .isAFolder
  | .file bytes =>
    match String.fromUTF8? bytes with
    | some text => return text
    | none => throw .notUnicode

end Place

end ChatMarkup.Files

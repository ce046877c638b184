/-!
# Folders and files

A tree of folders and files, as far as reading a file needs it.

Out of scope: links, permissions, devices, and trees that change while a file is read.
-/

namespace ChatMarkup.Files

/-- A file with its bytes, or a folder with its entries. -/
inductive Entry
  | file (bytes : ByteArray)
  | folder (entries : List (String × Entry))

namespace Entry

/-- The folder without entries. -/
def empty : Entry := folder []

/-- The entry of a folder that has a name. -/
def child? : Entry → String → Option Entry
  | file _, _ => none
  | folder entries, name => entries.lookup name

/-- The entries of a folder, without those that have a name. -/
def others : Entry → String → List (String × Entry)
  | file _, _ => []
  | folder entries, name => entries.filter (·.1 != name)

/-- An entry with a change at the end of a path inside it. Folders are made on the way. -/
def alter (change : Entry → Entry) (entry : Entry) : List String → Entry
  | [] => change entry
  | name :: path =>
    folder ((name, alter change ((entry.child? name).getD empty) path) :: entry.others name)

/-- An entry with another put at the end of a path inside it, in place of what was there. -/
def put (entry : Entry) (path : List String) (new : Entry) : Entry :=
  entry.alter (fun _ => new) path

/-- An entry with a folder at the end of a path inside it. What is there already stays. -/
def makeFolder (entry : Entry) (path : List String) : Entry :=
  entry.alter id path

end Entry

end ChatMarkup.Files

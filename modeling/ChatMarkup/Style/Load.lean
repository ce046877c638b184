import ChatMarkup.Files.Path
import ChatMarkup.Style.Settings

/-!
# Styles from files

A style is read from the text of a file. Two things can go wrong: the file cannot be read, or its
text does not set a style.

Out of scope: what is said of a text that does not set a style, which names the place in the text.
-/

namespace ChatMarkup

/-- Why a style cannot be loaded. -/
inductive LoadError
  /-- The file with the settings cannot be read. -/
  | unreadable (path : String) (failure : Files.Failure)
  /-- The settings are not well formed. -/
  | malformed
deriving DecidableEq, Repr

/-- The text of an error that a user sees, where the error itself has one. -/
def LoadError.message? : LoadError → Option String
  | unreadable path failure =>
    some ("failed to read options file " ++ path ++ ": " ++ failure.message)
  | malformed => none

/-- The style that a TOML text sets. -/
def Style.ofText (text : String) : Except LoadError Style :=
  match Style.ofToml? text with
  | some style => .ok style
  | none => .error .malformed

/-- The style that the file at the end of a path sets. -/
def Style.load (place : Files.Place) (path : String) : Except LoadError Style :=
  match place.read path with
  | .ok text => Style.ofText text
  | .error failure => .error (.unreadable path failure)

end ChatMarkup

/-!
# Paths

A path is a text with slashes between its parts, taken from where the program was started. The
extension of a file is what stands after the last dot of its name, unless that dot comes
first. Extensions are compared without regard to the case of ASCII letters, and may be given
with dots in front.
-/

namespace SchemaLang.Path

/-- The parts of a path between its slashes. -/
def parts (path : String) : List String :=
  (path.toList.splitOn '/').map String.ofList

/-- The path of an entry of a directory. -/
def join (path name : String) : String :=
  if path.toList.getLast? = some '/' then path ++ name else path ++ "/" ++ name

/-- What a file is called, without the directories it is in. -/
def fileName (path : String) : List Char :=
  (path.toList.reverse.takeWhile (· ≠ '/')).reverse

/-- The extension of a file name, if it has one. -/
def extension? (name : List Char) : Option (List Char) :=
  let ending := (name.reverse.takeWhile (· ≠ '.')).reverse
  if ending.length + 1 < name.length then some ending else none

/-- An extension without dots in front, in lower case. -/
def normalizeExtension (ext : String) : String :=
  String.ofList ((ext.toList.dropWhile (· = '.')).map Char.toLower)

/-- What some given extensions mean: each once, in order, and none that is empty. -/
def normalizeExtensions (exts : List String) : List String :=
  ((exts.map normalizeExtension).filter (· ≠ "")).eraseDups.mergeSort

/-- Whether the extension of a path is one of some normal ones. -/
def hasExtension (exts : List String) (path : String) : Bool :=
  match extension? (fileName path) with
  | none => false
  | some ext => String.ofList (ext.map Char.toLower) ∈ exts

end SchemaLang.Path

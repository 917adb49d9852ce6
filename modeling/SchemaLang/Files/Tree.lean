import SchemaLang.Files.Path

/-!
# File trees

A file tree is a file or a directory of named file trees. Files are found by their paths: `resolve`
turns a path into the names that lead from the top of the tree to the place it means, if there is
such a place. A path may only go through directories, not above the top, and not start with a slash.
-/

namespace SchemaLang

/-- A file with its content, or a directory with its entries. -/
inductive FileTree (α : Type) where
  | file (content : α)
  | directory (entries : List (String × FileTree α))
deriving Repr

namespace FileTree

/-- The tree at the end of some names. -/
def at? (t : FileTree α) : List String → Option (FileTree α)
  | [] => some t
  | name :: names =>
    match t with
    | .file _ => none
    | .directory entries => (entries.lookup name).bind fun t' => t'.at? names

/-- Whether there is a directory at the end of some names. -/
def isDirectoryAt (t : FileTree α) (names : List String) : Bool :=
  match t.at? names with
  | some (.directory _) => true
  | _ => false

/-- One step of a path, from the place at the end of `names`, which has to be a directory. -/
def step (t : FileTree α) (names : List String) (part : String) : Option (List String) := do
  guard (t.isDirectoryAt names)
  if part = "" ∨ part = "." then return names
  if part = ".." then
    guard (names ≠ [])
    return names.dropLast
  guard (t.at? (names ++ [part])).isSome
  return names ++ [part]

/-- The names that lead to what a path means. -/
def resolve (t : FileTree α) (path : String) : Option (List String) := do
  guard (path ≠ "" ∧ path.toList.head? ≠ some '/')
  (Path.parts path).foldlM t.step []

/-- What a path means. -/
def lookup (t : FileTree α) (path : String) : Option (FileTree α) := do
  t.at? (← t.resolve path)

/-- The content of the file that a path means. -/
def read? (t : FileTree α) (path : String) : Option α := do
  match ← t.lookup path with
  | .file content => return content
  | .directory _ => none

/-- Changes the first entry with a name. -/
def modifyEntry (name : String) (f : FileTree α → FileTree α) :
    List (String × FileTree α) → List (String × FileTree α)
  | [] => []
  | (k, t) :: es => if k = name then (k, f t) :: es else (k, t) :: modifyEntry name f es

/-- Gives another content to the file at the end of some names, if there is a file. -/
def setAt (content : α) : List String → FileTree α → FileTree α
  | [], .file _ => .file content
  | [], t => t
  | _ :: _, .file c => .file c
  | name :: names, .directory entries => .directory (modifyEntry name (setAt content names) entries)

/-- Gives another content to the file that a path means, if it means one. -/
def write (t : FileTree α) (path : String) (content : α) : FileTree α :=
  match t.resolve path with
  | none => t
  | some names => setAt content names t

/-- Puts a tree at the end of some names, with directories above it, where there is nothing yet. -/
def insert (u : FileTree α) : List String → FileTree α → FileTree α
  | [], _ => u
  | _ :: _, .file c => .file c
  | name :: names, .directory entries =>
    if (entries.lookup name).isSome then .directory (modifyEntry name (insert u names) entries)
    else .directory (entries ++ [(name, insert u names (.directory []))])

mutual

/-- The paths of all files, where `path` is the path of the tree: directory by directory, with the
entries of each in the order of their names. -/
def filePaths (path : String) : FileTree α → List String
  | .file _ => [path]
  | .directory entries => ((entryPaths path entries).mergeSort fun a b => a.1 ≤ b.1).flatMap (·.2)

/-- The paths of all files in each entry of the directory at `path`. -/
def entryPaths (path : String) : List (String × FileTree α) → List (String × List String)
  | [] => []
  | (name, t) :: es => (name, filePaths (Path.join path name) t) :: entryPaths path es

end

end FileTree

end SchemaLang

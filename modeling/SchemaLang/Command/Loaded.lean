import SchemaLang.Parser.Definition

/-!
# Loaded files

Each file that was found is read, and parsed under its path. What fails is told in a text of its
own, so that one file does not keep the others from being worked on.
-/

namespace SchemaLang

/-- What a file holds. -/
inductive Content where
  | text (body : String)
  | binary (bytes : List UInt8)
deriving DecidableEq, Repr

namespace Content

/-- What some bytes are: a text if they are valid UTF-8. -/
def ofBytes (bytes : ByteArray) : Content :=
  match String.fromUTF8? bytes with
  | some body => .text body
  | none => .binary bytes.toList

end Content

/-- Why a file has no text. -/
inductive ReadError where
  | missing
  | notText
deriving DecidableEq, Repr

/-- The message for a person. -/
def ReadError.message : ReadError → String
  | .missing => "No such file or directory (os error 2)"
  | .notText => "stream did not contain valid UTF-8"

/-- A file that was found, and its text. -/
structure Loaded where
  path : String
  body : Except ReadError String

namespace Loaded

/-- A file with what was read at its path. -/
def ofContent (path : String) : Option Content → Loaded
  | none => ⟨path, .error .missing⟩
  | some (.binary _) => ⟨path, .error .notText⟩
  | some (.text body) => ⟨path, .ok body⟩

/-- The text and the document of a file, or what to tell about it. -/
def parse (f : Loaded) : Except String (String × Document) :=
  match f.body with
  | .error e => .error s!"Failed to read {f.path}: {e.message}"
  | .ok body =>
    let source : Source := ⟨body, f.path⟩
    match parseDocument source {} with
    | .error e => .error (e.diagnostic source).detailed
    | .ok document => .ok (body, document)

end Loaded

end SchemaLang

import SchemaLang.Token.Scan

/-!
# Lexemes

The grammar is read over tokens other than descriptions. A lexeme is such a token together with the
descriptions right in front of it, their lines joined into one text.
-/

namespace SchemaLang

/-- A token other than a description, and the description in front of it. -/
structure Lexeme where
  token : Token
  span : Span
  description : Option String
deriving DecidableEq, Repr

namespace Lexeme

/-- One text of several lines, if there is any line. -/
def joinLines : List String → Option String
  | [] => none
  | lines => some ("\n".intercalate lines)

/-- Attaches descriptions to the tokens after them; `pending` are the lines since the last token. -/
def gather (pending : List String) : List Reading → List Lexeme
  | [] => []
  | r :: rs =>
    match r.token with
    | .description line => gather (pending ++ [line]) rs
    | token => ⟨token, r.span, joinLines pending⟩ :: gather [] rs

end Lexeme

end SchemaLang

import SchemaLang.Source

/-!
# Ignored text and comments

Between tokens stands ignored text: separators, and comments from a single `#` to the end of the
line. A `##` is no comment; it begins a description. The comments of a document lie in the gaps
between its tokens, where every `#` that is not itself within a comment begins one.
-/

namespace SchemaLang.Ignored

/-- The characters that only separate tokens: space, tab, LF, CR, comma and the byte order mark. -/
def isSeparator (c : Char) : Bool :=
  c == ' ' || c == '\t' || c == '\n' || c == '\r' || c == ',' || c == '\ufeff'

/-- The characters at which a comment or a description ends. -/
def endsLine (c : Char) : Bool :=
  c == '\n' || c == '\r'

/-- The ignored text at the head and the rest. With `inComment` the text starts within a comment. -/
def split : (inComment : Bool) → List Char → List Char × List Char
  | _, [] => ([], [])
  | true, c :: cs =>
    let (gap, rest) := split (!endsLine c) cs
    (c :: gap, rest)
  | false, c :: cs =>
    if isSeparator c then
      let (gap, rest) := split false cs
      (c :: gap, rest)
    else if c = '#' ∧ cs.head? ≠ some '#' then
      let (gap, rest) := split true cs
      (c :: gap, rest)
    else ([], c :: cs)

/-- The spans of the comments in a gap that starts at byte `position`; `started` is where a comment
began that the gap goes on with. -/
def comments (position : Nat) (started : Option Nat) : List Char → List Span
  | [] => (started.map fun start => ⟨start, position⟩).toList
  | c :: cs =>
    match started with
    | none => comments (position + c.utf8Size) (if c = '#' then some position else none) cs
    | some start =>
      if endsLine c then ⟨start, position⟩ :: comments (position + c.utf8Size) none cs
      else comments (position + c.utf8Size) started cs

theorem append_of_split (inComment : Bool) (cs : List Char) :
    (split inComment cs).1 ++ (split inComment cs).2 = cs := by
  fun_induction split inComment cs <;> simp_all

end SchemaLang.Ignored

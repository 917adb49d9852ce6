import SchemaLang.Source

/-!
# Locations of nodes

A node that was parsed knows which bytes it was parsed from, and may know the source they belong to.
Nodes made by hand have no location. Most functions on locations are `mapLoc` of something: dropping
them, dropping the source, moving them along.
-/

namespace SchemaLang

/-- The bytes from `start` up to `stop`, of `source` if that was kept. -/
structure Loc where
  start : Nat
  stop : Nat
  source : Option Source
deriving DecidableEq, Repr

namespace Loc

/-- The text that a node was parsed from, if the source was kept and both ends are character
boundaries in it. -/
def text? (l : Loc) : Option String :=
  l.source.bind fun s => s.text? ⟨l.start, l.stop⟩

/-- The same bytes without the source. -/
def withoutSource (l : Loc) : Loc := { l with source := none }

end Loc

end SchemaLang

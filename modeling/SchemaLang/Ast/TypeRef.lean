import SchemaLang.Ast.Kind
import SchemaLang.Ast.Loc

/-!
# Type references

What a field, an argument or a definition refers to: a named type, a list, either of them required,
or a node at the other end of an arrow. A connection is an arrow of a field, a join is a chain of
them, and an edge is the arrow of a mutation's result. Which of these may stand where is for the
parser to say; the tree can hold any of them.
-/

namespace SchemaLang

/-- A name and where it stands. -/
structure Name where
  value : String
  loc : Option Loc
deriving DecidableEq, Repr

/-- A type, or the label of an arrow, referred to by its name. -/
structure NamedType where
  name : Name
  loc : Option Loc
deriving DecidableEq, Repr

/-- Which way an arrow points, seen from the type that declares it. -/
inductive Direction where
  | incoming
  | outgoing
deriving DecidableEq, Repr

/-- Whether a connection leads to at most one node or to many. -/
inductive Cardinality where
  | singular
  | plural
deriving DecidableEq, Repr

/-- An arrow of a field: `-->`, `==>`, `<--` or `<==`, each with or without a label in it. -/
structure ConnectionType where
  type : NamedType
  edgeLabel : Option NamedType
  direction : Direction
  cardinality : Cardinality
  loc : Option Loc
deriving DecidableEq, Repr

/-- Arrows one after the other. A parsed join has two or more. -/
structure ConnectionJoinType where
  connections : List ConnectionType
  loc : Option Loc
deriving DecidableEq, Repr

/-- An arrow of a mutation's result: `==>` or `<==`, with or without a label. -/
structure EdgeType where
  type : NamedType
  edgeLabel : Option NamedType
  direction : Direction
  loc : Option Loc
deriving DecidableEq, Repr

/-- A reference to a type. -/
inductive TypeRef where
  | named (t : NamedType)
  | list (type : TypeRef) (loc : Option Loc)
  | nonNull (type : TypeRef) (loc : Option Loc)
  | connection (t : ConnectionType)
  | connectionJoin (t : ConnectionJoinType)
  | edge (t : EdgeType)
deriving DecidableEq, Repr

namespace Name

/-- Changes the location, or drops it. -/
def mapLoc (f : Loc → Option Loc) (n : Name) : Name :=
  { n with loc := n.loc.bind f }

end Name

namespace NamedType

/-- Changes or drops every location. -/
def mapLoc (f : Loc → Option Loc) (t : NamedType) : NamedType :=
  ⟨t.name.mapLoc f, t.loc.bind f⟩

end NamedType

namespace ConnectionType

def mapLoc (f : Loc → Option Loc) (t : ConnectionType) : ConnectionType :=
  { t with type := t.type.mapLoc f, edgeLabel := t.edgeLabel.map (·.mapLoc f), loc := t.loc.bind f }

end ConnectionType

namespace ConnectionJoinType

def mapLoc (f : Loc → Option Loc) (t : ConnectionJoinType) : ConnectionJoinType :=
  ⟨t.connections.map (·.mapLoc f), t.loc.bind f⟩

end ConnectionJoinType

namespace EdgeType

def mapLoc (f : Loc → Option Loc) (t : EdgeType) : EdgeType :=
  { t with type := t.type.mapLoc f, edgeLabel := t.edgeLabel.map (·.mapLoc f), loc := t.loc.bind f }

end EdgeType

namespace TypeRef

/-- The kind of the reference itself. -/
def kind : TypeRef → Kind
  | .named _ => .namedType
  | .list .. => .listType
  | .nonNull .. => .nonNullType
  | .connection _ => .connectionType
  | .connectionJoin _ => .connectionJoinType
  | .edge _ => .edgeType

/-- The location of the reference itself. -/
def loc : TypeRef → Option Loc
  | .named t => t.loc
  | .list _ l => l
  | .nonNull _ l => l
  | .connection t => t.loc
  | .connectionJoin t => t.loc
  | .edge t => t.loc

def mapLoc (f : Loc → Option Loc) : TypeRef → TypeRef
  | .named t => .named (t.mapLoc f)
  | .list type l => .list (type.mapLoc f) (l.bind f)
  | .nonNull type l => .nonNull (type.mapLoc f) (l.bind f)
  | .connection t => .connection (t.mapLoc f)
  | .connectionJoin t => .connectionJoin (t.mapLoc f)
  | .edge t => .edge (t.mapLoc f)

/-- How many list types are nested in one another. -/
def nesting : TypeRef → Nat
  | .list type _ => type.nesting + 1
  | .nonNull type _ => type.nesting
  | _ => 0

end TypeRef

end SchemaLang

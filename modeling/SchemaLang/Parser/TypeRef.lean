import SchemaLang.Parser.Basic

/-!
# Parsing type references

A plain type is a name or a list of a plain type, each with or without a `!`. A field may lead over
arrows instead: an arrow is read from its single characters as

* `-` label? `->` Type, out to one node,
* `=` label? `=>` Type, out to many,
* `<-` label? `-` Type, in from one,
* `<=` label? `=` Type, in from many,

and arrows that follow one another are a join. The result of a mutation may be an edge, which knows
the two arrows for many only. List types may be nested as many levels as the parser is given; one
more is a fault after its opening bracket.
-/

namespace SchemaLang.Parser

/-- A type, or a label, by its name. -/
def namedType : Parser NamedType := do
  let start ← start
  let n ← name
  return ⟨n, ← located start⟩

/-- What `p` reads, and around it the mark that it is required if a `!` follows. -/
def orNonNull (p : Parser TypeRef) : Parser TypeRef := do
  let start ← start
  let t ← p
  if ← skip .bang then
    return .nonNull t (← located start)
  return t

/-- A list type whose element `element` reads. -/
def listTypeOf (element : Parser TypeRef) : Parser TypeRef := do
  let start ← start
  expect .bracketOpen
  let t ← element
  expect .bracketClose
  return .list t (← located start)

/-- A plain type with list types at most `levels` deep. -/
def plainType : (levels : Nat) → Parser TypeRef
  | 0 => orNonNull do
    if ← peek .bracketOpen then listTypeOf tooDeep else return .named (← namedType)
  | levels + 1 => orNonNull do
    if ← peek .bracketOpen then listTypeOf (plainType levels) else return .named (← namedType)

/-- A list type at most `levels` deep, itself included. -/
def listType : (levels : Nat) → Parser TypeRef
  | 0 => listTypeOf tooDeep
  | levels + 1 => listTypeOf (plainType levels)

/-- The shape of an arrow. -/
def shapeOf : Direction → Cardinality → ArrowShape
  | .outgoing, .singular => .outgoingOne
  | .outgoing, .plural => .outgoingMany
  | .incoming, .singular => .incomingOne
  | .incoming, .plural => .incomingMany

/-- The characters in front of an arrow's label: they say where it points and to how many. -/
def arrowStart : Parser (Direction × Cardinality) := do
  if ← skip .dash then return (.outgoing, .singular)
  if ← skip .equals then return (.outgoing, .plural)
  if ← skip .less then
    if ← skip .dash then return (.incoming, .singular)
    if ← skip .equals then return (.incoming, .plural)
    withHint .incomingArrowStart unexpected
  else unexpected

/-- The label in an arrow, if there is one. -/
def edgeLabel : Parser (Option NamedType) := do
  if (← token).isName then return some (← namedType)
  return none

/-- The characters after an arrow's label: its line, and its head if it points out. -/
def arrowEnd (direction : Direction) (cardinality : Cardinality) : Parser Unit := do
  let shape := shapeOf direction cardinality
  withHint (.arrow shape)
    (expect (match cardinality with | .singular => .dash | .plural => .equals))
  if direction = .outgoing then withHint (.arrow shape) (expect .greater)

/-- One arrow of a field and the type it leads to. -/
def connectionType : Parser ConnectionType := do
  let start ← start
  let (direction, cardinality) ← arrowStart
  let label ← edgeLabel
  arrowEnd direction cardinality
  let t ← namedType
  return ⟨t, label, direction, cardinality, ← located start⟩

/-- The characters in front of an edge's label: they say where it points. -/
def edgeStart : Parser Direction := do
  if ← skip .equals then return .outgoing
  if ← skip .less then
    withHint (.arrow .incomingMany) (expect .equals)
    return .incoming
  unexpected

/-- The arrow of a mutation's result and the type it leads to. -/
def edgeType : Parser EdgeType := do
  let start ← start
  let direction ← edgeStart
  let label ← edgeLabel
  arrowEnd direction .plural
  let t ← namedType
  return ⟨t, label, direction, ← located start⟩

/-- The type of a field of an object or an interface: a list, arrows, or a named type. -/
def fieldType (levels : Nat) : Parser TypeRef := orNonNull do
  let start ← start
  if ← peek .bracketOpen then listType levels
  else if (← token).startsArrow then
    match ← many Token.startsArrow connectionType with
    | [t] => return .connection t
    | ts => return .connectionJoin ⟨ts, ← located start⟩
  else return .named (← namedType)

/-- The type of a field of a mutation's result: a list, an edge, or a named type. -/
def mutationFieldType (levels : Nat) : Parser TypeRef := orNonNull do
  if ← peek .bracketOpen then listType levels
  else if (← peek .equals) || (← peek .less) then return .edge (← edgeType)
  else return .named (← namedType)

/-- What a filter or an order is on: a list, one arrow, or a named type. -/
def targetType (levels : Nat) : Parser TypeRef := do
  if ← peek .bracketOpen then listType levels
  else if (← token).startsArrow then return .connection (← connectionType)
  else if (← token).isName then return .named (← namedType)
  else unexpected

end SchemaLang.Parser

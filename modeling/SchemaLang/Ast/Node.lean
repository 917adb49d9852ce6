import SchemaLang.Ast.MapLoc

/-!
# Nodes

A node is any part of a document tree: what a walk visits, what can be printed on its own, and what
the JSON form of an object with a kind stands for. Each sort of part is embedded by one constructor;
values, type references and definitions are embedded as a whole, and their own constructors tell
their kinds apart.
-/

namespace SchemaLang

/-- Any part of a document tree. -/
inductive Node where
  | name (n : Name)
  | document (d : Document)
  | value (v : Value)
  | objectField (f : ObjectField)
  | argument (a : Argument)
  | directive (d : Directive)
  | type (t : TypeRef)
  | inputValue (d : InputValueDefinition)
  | field (owner : FieldOwner) (d : FieldDefinition)
  | enumValue (d : EnumValueDefinition)
  | definition (d : Definition)
  | condition (c : FilterCondition)
  | ordering (e : OrderExpression)
deriving DecidableEq, Repr

namespace Node

/-- What the node is. -/
def kind : Node → Kind
  | .name _ => .name
  | .document _ => .document
  | .value v => v.kind
  | .objectField _ => .objectField
  | .argument _ => .argument
  | .directive _ => .directive
  | .type t => t.kind
  | .inputValue _ => .inputValueDefinition
  | .field owner _ => owner.kind
  | .enumValue _ => .enumValueDefinition
  | .definition d => d.kind
  | .condition _ => .filterCondition
  | .ordering _ => .orderExpression

/-- Where the node was parsed from. -/
def loc : Node → Option Loc
  | .name n => n.loc
  | .document d => d.loc
  | .value v => v.loc
  | .objectField f => f.loc
  | .argument a => a.loc
  | .directive d => d.loc
  | .type t => t.loc
  | .inputValue d => d.loc
  | .field _ d => d.loc
  | .enumValue d => d.loc
  | .definition d => d.loc
  | .condition c => c.loc
  | .ordering e => e.loc

def mapLoc (f : Loc → Option Loc) : Node → Node
  | .name n => .name (n.mapLoc f)
  | .document d => .document (d.mapLoc f)
  | .value v => .value (v.mapLoc f)
  | .objectField m => .objectField (m.mapLoc f)
  | .argument a => .argument (a.mapLoc f)
  | .directive d => .directive (d.mapLoc f)
  | .type t => .type (t.mapLoc f)
  | .inputValue d => .inputValue (d.mapLoc f)
  | .field owner d => .field owner (d.mapLoc f)
  | .enumValue d => .enumValue (d.mapLoc f)
  | .definition d => .definition (d.mapLoc f)
  | .condition c => .condition (c.mapLoc f)
  | .ordering e => .ordering (e.mapLoc f)

/-- The node without any location. -/
def withoutLoc (n : Node) : Node := n.mapLoc fun _ => none

end Node

end SchemaLang

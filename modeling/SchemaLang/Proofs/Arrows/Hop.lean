import SchemaLang.Proofs.Contract
import SchemaLang.Proofs.Syntax

/-!
# Hops

A hop is an arrow and the type it leads to, apart from where they stand. Arrows are put together
from single characters: the line of an arrow is one dash for one node and one equals sign for many
on either side of the label, and its head is behind the line if it leads out and in front of it if
it leads in. `Hop.chain` writes down the tokens of hops one after the other, and `ArrowPlace.type?`
says which type they make up in each of the places where a type may have arrows.
-/

namespace SchemaLang

/-- An arrow, its label if it has one, and the name of the type it leads to. -/
structure Hop where
  direction : Direction
  cardinality : Cardinality
  label : Option String
  target : String
deriving DecidableEq, Repr

namespace Hop

/-- The label and the target are names. -/
def Conforms (h : Hop) : Prop := (∀ l ∈ h.label, IsName l) ∧ IsName h.target

/-- The characters that arrows are put together from. -/
def characters : List Punctuator := [.dash, .equals, .less, .greater]

/-- The characters in front of the label. -/
def opening : Direction → Cardinality → List Punctuator
  | .outgoing, .singular => [.dash]
  | .outgoing, .plural => [.equals]
  | .incoming, .singular => [.less, .dash]
  | .incoming, .plural => [.less, .equals]

/-- The characters behind the label. -/
def closing : Direction → Cardinality → List Punctuator
  | .outgoing, .singular => [.dash, .greater]
  | .outgoing, .plural => [.equals, .greater]
  | .incoming, .singular => [.dash]
  | .incoming, .plural => [.equals]

/-- The tokens of a hop. -/
def tokens (h : Hop) : List Token :=
  (opening h.direction h.cardinality).map .punctuator ++ h.label.toList.map .name ++
    (closing h.direction h.cardinality).map .punctuator ++ [.name h.target]

/-- The tokens of hops one after the other, and of the mark that they are required. -/
def chain (hops : List Hop) (required : Bool) : List Token :=
  hops.flatMap tokens ++ if required then [.punctuator .bang] else []

/-- A type by its name. -/
def named (name : String) : NamedType := ⟨⟨name, none⟩, none⟩

/-- The hop as an arrow of a field. -/
def connection (h : Hop) :
    ConnectionType := ⟨named h.target, h.label.map named, h.direction, h.cardinality, none⟩

/-- A hop to many as an edge of a mutation's result. -/
def edge (h : Hop) : EdgeType := ⟨named h.target, h.label.map named, h.direction, none⟩

end Hop

/-- The places where a type may have arrows. -/
inductive ArrowPlace where
  /-- The type of a field of an object or an interface. -/
  | field
  /-- The type of a field of a mutation's result. -/
  | mutationField
  /-- What a filter or an order is on. -/
  | target
deriving DecidableEq, Repr

/-- The type itself, or the one that says that it is required. -/
def TypeRef.mark (required : Bool) (t : TypeRef) : TypeRef :=
  if required then .nonNull t none else t

/-- The type that hops make up in a place: a field may have any number of them, a mutation's field
one to many, and a target one that is not marked as required. -/
def ArrowPlace.type? : ArrowPlace → List Hop → (required : Bool) → Option TypeRef
  | .field, [h], required => some (.mark required (.connection h.connection))
  | .field, h :: h' :: hops, required =>
    some (.mark required (.connectionJoin ⟨(h :: h' :: hops).map Hop.connection, none⟩))
  | .mutationField, [h], required =>
    if h.cardinality = .plural then some (.mark required (.edge h.edge)) else none
  | .target, [h], false => some (.connection h.connection)
  | _, _, _ => none

def ConnectionType.hop (t : ConnectionType) : Hop :=
  ⟨t.direction, t.cardinality, t.edgeLabel.map (·.name.value), t.type.name.value⟩

def EdgeType.hop (t : EdgeType) :
    Hop := ⟨t.direction, .plural, t.edgeLabel.map (·.name.value), t.type.name.value⟩

private theorem tokens_arrowForm (direction : Direction) (cardinality : Cardinality)
    (label : Option NamedType) (t : NamedType) : (arrowForm direction cardinality label t).tokens =
      Hop.tokens ⟨direction, cardinality, label.map (·.name.value), t.name.value⟩ := by
  cases direction <;> cases cardinality <;> cases label <;> rfl

theorem ConnectionType.tokens_form (t : ConnectionType) : t.form.tokens = t.hop.tokens :=
  tokens_arrowForm _ _ _ _

theorem EdgeType.tokens_form (t : EdgeType) : t.form.tokens = t.hop.tokens :=
  tokens_arrowForm _ _ _ _

namespace Hop

variable {h : Hop}

@[simp] theorem tokens_connection (h : Hop) : h.connection.form.tokens = h.tokens := by
  obtain ⟨direction, cardinality, label, target⟩ := h
  rw [ConnectionType.tokens_form]
  cases label <;> rfl

theorem tokens_edge (plural : h.cardinality = .plural) : h.edge.form.tokens = h.tokens := by
  obtain ⟨direction, cardinality, label, target⟩ := h
  obtain rfl : cardinality = .plural := plural
  rw [EdgeType.tokens_form]
  cases label <;> rfl

theorem tokens_all_connection (hops : List Hop) :
    (Form.all ((hops.map connection).map ConnectionType.form)).tokens = hops.flatMap tokens := by
  induction hops with
  | nil => rfl
  | cons h hops ih =>
    rw [List.map_cons, List.map_cons, Form.tokens_all_cons, ih, tokens_connection,
      List.flatMap_cons]

theorem Conforms.connection (h' : h.Conforms) : h.connection.Conforms := by
  refine ⟨h'.2, fun l hl => ?_⟩
  obtain ⟨label, hlabel, rfl⟩ := Option.map_eq_some_iff.1 hl
  exact h'.1 label hlabel

theorem Conforms.edge (h' : h.Conforms) : h.edge.Conforms := h'.connection

end Hop

theorem ConnectionType.connection_hop (t : ConnectionType) :
    t.hop.connection = t.mapLoc fun _ => none := by
  obtain ⟨⟨⟨target, _⟩, _⟩, label, direction, cardinality, loc⟩ := t
  cases label <;> simp [hop, Hop.connection, Hop.named, mapLoc, NamedType.mapLoc, Name.mapLoc]

theorem EdgeType.edge_hop (t : EdgeType) : t.hop.edge = t.mapLoc fun _ => none := by
  obtain ⟨⟨⟨target, _⟩, _⟩, label, direction, loc⟩ := t
  cases label <;> simp [hop, Hop.edge, Hop.named, mapLoc, NamedType.mapLoc, Name.mapLoc]

theorem ConnectionType.Conforms.hop {t : ConnectionType} (h : t.Conforms) : t.hop.Conforms := by
  refine ⟨fun l hl => ?_, h.1⟩
  obtain ⟨label, hlabel, rfl⟩ := Option.map_eq_some_iff.1 hl
  exact h.2 label hlabel

theorem EdgeType.Conforms.hop {t : EdgeType} (h : t.Conforms) : t.hop.Conforms := by
  refine ⟨fun l hl => ?_, h.1⟩
  obtain ⟨label, hlabel, rfl⟩ := Option.map_eq_some_iff.1 hl
  exact h.2 label hlabel

end SchemaLang

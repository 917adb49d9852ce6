import SchemaLang.Ast.Encode
import SchemaLang.Printer.Print
import SchemaLang.Proofs.Codec.Joins
import SchemaLang.Proofs.Codec.Reading

/-!
# Reading what was written

Every node is read back from its JSON form, with its locations and their sources, if every join in
it is one of two or more connections. Each reader finds the parts under the keys that the writer
puts them under, and the kind that the writer puts first leads a place that admits several kinds to
the right reader.
-/

namespace SchemaLang

open Json (Parts Read byKind_of_ok lookup_cons readList_list)

/-- A node names its kind. -/
@[simp] theorem Json.kind?_node (k : Kind) (description : Option String)
    (parts : List (String × Json)) (loc : Option Loc) :
    (Json.node k description parts loc).kind? = some k := kind?_cons k _

@[simp] theorem Source.ofJson_toJson (s : Source) : Source.ofJson s.toJson = .ok s := by
  simp [ofJson, parts, toJson, lookup_cons]

/-- What is written as an object is not null. -/
@[simp] theorem Source.orNull_toJson {α : Type} (read : Json → Read α) (s : Source) :
    Json.orNull read s.toJson = some <$> read s.toJson := rfl

@[simp] theorem Loc.ofJson_toJson (l : Loc) : Loc.ofJson l.toJson = .ok l := by
  obtain ⟨start, stop, source⟩ := l
  cases source <;> simp [ofJson, parts, toJson, lookup_cons, Json.optional]

@[simp] theorem Loc.orNull_toJson {α : Type} (read : Json → Read α) (l : Loc) :
    Json.orNull read l.toJson = some <$> read l.toJson := rfl

@[simp] theorem Name.ofJson_toJson (n : Name) : Name.ofJson n.toJson = .ok n := by
  obtain ⟨value, loc⟩ := n
  cases loc <;> simp [ofJson, parts, toJson, lookup_cons, Json.optional, Json.node]

@[simp] theorem NamedType.ofJson_toJson (t : NamedType) : NamedType.ofJson t.toJson = .ok t := by
  obtain ⟨name, loc⟩ := t
  cases loc <;> simp [ofJson, parts, toJson, lookup_cons, Json.optional, Json.node]

@[simp] theorem NamedType.orNull_toJson {α : Type} (read : Json → Read α) (t : NamedType) :
    Json.orNull read t.toJson = some <$> read t.toJson := rfl

@[simp] theorem Direction.ofJson_tag (d : Direction) : Direction.ofJson (.str d.tag) = .ok d := by
  cases d <;> rfl

@[simp] theorem Cardinality.ofJson_tag (c : Cardinality) :
    Cardinality.ofJson (.str c.tag) = .ok c := by
  cases c <;> rfl

@[simp] theorem ConnectionType.ofJson_toJson (t : ConnectionType) :
    ConnectionType.ofJson t.toJson = .ok t := by
  obtain ⟨type, label, direction, cardinality, loc⟩ := t
  cases label <;> cases loc <;>
    simp [ofJson, parts, toJson, lookup_cons, Json.optional, Json.nullable, Json.node]

theorem ConnectionJoinType.ofJson_toJson {t : ConnectionJoinType} (h : 2 ≤ t.connections.length) :
    ConnectionJoinType.ofJson t.toJson = .ok t := by
  obtain ⟨ts, loc⟩ := t
  have hread : readConnections (.list ConnectionType.toJson ts) = .ok ts := by
    rw [readConnections, readList_list fun t _ => t.ofJson_toJson, Json.ok_bind,
      if_neg (Nat.not_lt.2 h)]
    rfl
  cases loc <;> simp [ofJson, parts, toJson, lookup_cons, Json.optional, Json.node, hread]

@[simp] theorem EdgeType.ofJson_toJson (t : EdgeType) : EdgeType.ofJson t.toJson = .ok t := by
  obtain ⟨type, label, direction, loc⟩ := t
  cases label <;> cases loc <;>
    simp [ofJson, parts, toJson, lookup_cons, Json.optional, Json.nullable, Json.node]

theorem TypeRef.ofJson_toJson {t : TypeRef} (h : (Node.type t).JoinsConnect) :
    TypeRef.ofJson t.toJson = .ok t := by
  rw [ofJson_eq]
  induction t with
  | named t => exact byKind_of_ok (k := .namedType) (Json.kind?_node ..) rfl (by simp [toJson])
  | list t loc ih =>
    have ht := ih (Node.joinsConnect_list.1 h)
    rw [← ofJson_eq] at ht
    refine byKind_of_ok (k := .listType) (Json.kind?_node ..) rfl ?_
    cases loc <;> simp [toJson, parts, lookup_cons, Json.optional, Json.node, ht]
  | nonNull t loc ih =>
    have ht := ih (Node.joinsConnect_nonNull.1 h)
    rw [← ofJson_eq] at ht
    refine byKind_of_ok (k := .nonNullType) (Json.kind?_node ..) rfl ?_
    cases loc <;> simp [toJson, parts, lookup_cons, Json.optional, Json.node, ht]
  | connection t =>
    exact byKind_of_ok (k := .connectionType) (Json.kind?_node ..) rfl (by simp [toJson])
  | connectionJoin t =>
    have ht := t.ofJson_toJson (Node.joinsConnect_connectionJoin.1 h)
    exact byKind_of_ok (k := .connectionJoinType) (Json.kind?_node ..) rfl (by simp [toJson, ht])
  | edge t => exact byKind_of_ok (k := .edgeType) (Json.kind?_node ..) rfl (by simp [toJson])

/-- A value that is a text is read back. -/
private theorem Value.read_textParts (make : String → Option Loc → Value) (kind : Kind)
    (structName text : String) (loc : Option Loc) :
    (textParts make).read structName (.node kind none [("value", .str text)] loc) =
      .ok (make text loc) := by
  cases loc <;> simp [textParts, lookup_cons, Json.optional, Json.node]

mutual

theorem Value.ofJson_toJson : ∀ v : Value, Value.ofJson v.toJson = .ok v
  | .var n loc => by
    rw [ofJson_eq]
    refine byKind_of_ok (k := .var) (Json.kind?_node ..) rfl ?_
    cases loc <;> simp [toJson, varParts, lookup_cons, Json.optional, Json.node]
  | .int text loc => by
    rw [ofJson_eq]
    exact byKind_of_ok (k := .intValue) (Json.kind?_node ..) rfl (read_textParts ..)
  | .float text loc => by
    rw [ofJson_eq]
    exact byKind_of_ok (k := .floatValue) (Json.kind?_node ..) rfl (read_textParts ..)
  | .string text loc => by
    rw [ofJson_eq]
    exact byKind_of_ok (k := .stringValue) (Json.kind?_node ..) rfl (read_textParts ..)
  | .boolean b loc => by
    rw [ofJson_eq]
    refine byKind_of_ok (k := .booleanValue) (Json.kind?_node ..) rfl ?_
    cases loc <;> simp [toJson, booleanParts, lookup_cons, Json.optional, Json.node]
  | .enum text loc => by
    rw [ofJson_eq]
    exact byKind_of_ok (k := .enumValue) (Json.kind?_node ..) rfl (read_textParts ..)
  | .list vs loc => by
    have hvs : Json.readList Value.ofJson (.arr (valuesToJson vs)) = .ok vs :=
      Value.mapM_valuesToJson vs
    rw [ofJson_eq]
    refine byKind_of_ok (k := .listValue) (Json.kind?_node ..) rfl ?_
    cases loc <;> simp [toJson, listParts, lookup_cons, Json.optional, Json.node, hvs]
  | .object fs loc => by
    have hfs : Json.readList ObjectFieldOf.ofJson (.arr (fieldsToJson fs)) = .ok fs :=
      Value.mapM_fieldsToJson fs
    rw [ofJson_eq]
    refine byKind_of_ok (k := .objectValue) (Json.kind?_node ..) rfl ?_
    cases loc <;>
      simp [toJson, ObjectValue.parts, lookup_cons, Json.optional, Json.node, hfs,
        ObjectValue.toValue]

theorem Value.mapM_valuesToJson : ∀ vs : List Value, (valuesToJson vs).mapM Value.ofJson = .ok vs
  | [] => rfl
  | v :: vs => by
    rw [valuesToJson, List.mapM_cons, Value.ofJson_toJson v, Json.ok_bind,
      Value.mapM_valuesToJson vs]
    rfl

theorem Value.mapM_fieldsToJson :
    ∀ fs : List ObjectField, (fieldsToJson fs).mapM ObjectFieldOf.ofJson = .ok fs
  | [] => rfl
  | ⟨n, v, loc⟩ :: fs => by
    have hv := Value.ofJson_toJson v
    have hf :
        ObjectFieldOf.ofJson
            (.node .objectField none [("name", n.toJson), ("value", v.toJson)] loc) =
                .ok ⟨n, v, loc⟩ := by
      rw [ObjectFieldOf.ofJson_eq]
      cases loc <;> simp [ObjectFieldOf.parts, lookup_cons, Json.optional, Json.node, hv]
    rw [fieldsToJson, List.mapM_cons, hf, Json.ok_bind, Value.mapM_fieldsToJson fs]
    rfl

end

attribute [simp] Value.ofJson_toJson

@[simp] theorem Value.orNull_toJson {α : Type} (read : Json → Read α) (v : Value) :
    Json.orNull read v.toJson = some <$> read v.toJson := by
  cases v <;> rfl

@[simp] theorem ObjectFieldOf.ofJson_toJson (f : ObjectField) :
    ObjectFieldOf.ofJson f.toJson = .ok f := by
  obtain ⟨n, v, loc⟩ := f
  rw [ofJson_eq]
  cases loc <;> simp [toJson, parts, lookup_cons, Json.optional, Json.node]

@[simp] theorem ObjectValue.ofJson_toJson (o : ObjectValue) :
    ObjectValue.ofJson o.toJson = .ok o := by
  obtain ⟨fs, loc⟩ := o
  have hfs : Json.readList ObjectFieldOf.ofJson (.arr (fieldsToJson fs)) = .ok fs :=
    Value.mapM_fieldsToJson fs
  cases loc <;>
    simp [toJson, toValue, Value.toJson, ofJson, parts, lookup_cons, Json.optional, Json.node, hfs]

@[simp] theorem Argument.ofJson_toJson (a : Argument) : Argument.ofJson a.toJson = .ok a := by
  obtain ⟨n, v, loc⟩ := a
  cases loc <;> simp [ofJson, parts, toJson, lookup_cons, Json.optional, Json.node]

@[simp] theorem Directive.ofJson_toJson (d : Directive) : Directive.ofJson d.toJson = .ok d := by
  obtain ⟨n, as, loc⟩ := d
  have has := readList_list fun a (_ : a ∈ as) => a.ofJson_toJson
  cases loc <;> simp [ofJson, parts, toJson, lookup_cons, Json.optional, Json.node, has]

@[simp] theorem Directive.readList_toJson (ds : List Directive) :
    Json.readList Directive.ofJson (.list Directive.toJson ds) = .ok ds :=
  readList_list fun d _ => d.ofJson_toJson

theorem InputValueDefinition.ofJson_toJson {d : InputValueDefinition}
    (h : (Node.type d.type).JoinsConnect) : InputValueDefinition.ofJson d.toJson = .ok d := by
  obtain ⟨description, n, t, defaultValue, ds, loc⟩ := d
  have ht := TypeRef.ofJson_toJson h
  cases description <;> cases defaultValue <;> cases loc <;>
    simp [ofJson, parts, toJson, lookup_cons, Json.optional, Json.nullable, Json.node, ht]

private theorem InputValueDefinition.readList_toJson {ds : List InputValueDefinition}
    (h : ∀ d ∈ ds, (Node.type d.type).JoinsConnect) :
    Json.readList InputValueDefinition.ofJson (.list InputValueDefinition.toJson ds) = .ok ds :=
  readList_list fun d hd => ofJson_toJson (h d hd)

theorem FieldDefinition.ofJson_toJson {owner : FieldOwner} {d : FieldDefinition}
    (h : (Node.field owner d).JoinsConnect) :
    FieldDefinition.ofJson owner (d.toJson owner) = .ok d := by
  obtain ⟨description, n, as, t, ds, loc⟩ := d
  obtain ⟨has, ht⟩ := Node.joinsConnect_field.1 h
  have ht := TypeRef.ofJson_toJson ht
  have has := InputValueDefinition.readList_toJson has
  cases description <;> cases loc <;>
    simp [ofJson, parts, toJson, lookup_cons, Json.optional, Json.node, ht, has]

private theorem FieldDefinition.readList_toJson {owner : FieldOwner} {ds : List FieldDefinition}
    (h : ∀ d ∈ ds, (Node.field owner d).JoinsConnect) :
    Json.readList (FieldDefinition.ofJson owner) (.list (FieldDefinition.toJson owner) ds) =
      .ok ds :=
  readList_list fun d hd => ofJson_toJson (h d hd)

@[simp] theorem EnumValueDefinition.ofJson_toJson (d : EnumValueDefinition) :
    EnumValueDefinition.ofJson d.toJson = .ok d := by
  obtain ⟨description, n, ds, loc⟩ := d
  cases description <;> cases loc <;>
    simp [ofJson, parts, toJson, lookup_cons, Json.optional, Json.node]

theorem ScalarTypeDefinition.ofJson_toJson (d : ScalarTypeDefinition) :
    ScalarTypeDefinition.ofJson d.toJson = .ok d := by
  obtain ⟨description, n, ds, loc⟩ := d
  cases description <;> cases loc <;>
    simp [ofJson, parts, toJson, lookup_cons, Json.optional, Json.node]

theorem ObjectTypeDefinition.ofJson_toJson {d : ObjectTypeDefinition}
    (h : ∀ f ∈ d.fields, (Node.field .type f).JoinsConnect) :
    ObjectTypeDefinition.ofJson d.toJson = .ok d := by
  obtain ⟨description, n, ts, ds, fs, loc⟩ := d
  have hts := readList_list fun t (_ : t ∈ ts) => t.ofJson_toJson
  have hfs := FieldDefinition.readList_toJson h
  cases description <;> cases loc <;>
    simp [ofJson, parts, toJson, lookup_cons, Json.optional, Json.node, hts, hfs]

theorem InterfaceTypeDefinition.ofJson_toJson {d : InterfaceTypeDefinition}
    (h : ∀ f ∈ d.fields, (Node.field .type f).JoinsConnect) :
    InterfaceTypeDefinition.ofJson d.toJson = .ok d := by
  obtain ⟨description, n, ds, fs, loc⟩ := d
  have hfs := FieldDefinition.readList_toJson h
  cases description <;> cases loc <;>
    simp [ofJson, parts, toJson, lookup_cons, Json.optional, Json.node, hfs]

theorem UnionTypeDefinition.ofJson_toJson (d : UnionTypeDefinition) :
    UnionTypeDefinition.ofJson d.toJson = .ok d := by
  obtain ⟨description, n, ds, ts, loc⟩ := d
  have hts := readList_list fun t (_ : t ∈ ts) => t.ofJson_toJson
  cases description <;> cases loc <;>
    simp [ofJson, parts, toJson, lookup_cons, Json.optional, Json.node, hts]

theorem EnumTypeDefinition.ofJson_toJson (d : EnumTypeDefinition) :
    EnumTypeDefinition.ofJson d.toJson = .ok d := by
  obtain ⟨description, n, ds, vs, loc⟩ := d
  have hvs := readList_list fun v (_ : v ∈ vs) => v.ofJson_toJson
  cases description <;> cases loc <;>
    simp [ofJson, parts, toJson, lookup_cons, Json.optional, Json.node, hvs]

theorem InputObjectTypeDefinition.ofJson_toJson {d : InputObjectTypeDefinition}
    (h : ∀ f ∈ d.fields, (Node.type f.type).JoinsConnect) :
    InputObjectTypeDefinition.ofJson d.toJson = .ok d := by
  obtain ⟨description, n, ds, fs, loc⟩ := d
  have hfs := InputValueDefinition.readList_toJson h
  cases description <;> cases loc <;>
    simp [ofJson, parts, toJson, lookup_cons, Json.optional, Json.node, hfs]

theorem TypeExtensionDefinition.ofJson_toJson {d : TypeExtensionDefinition}
    (h : ∀ f ∈ d.definition.fields, (Node.field .type f).JoinsConnect) :
    TypeExtensionDefinition.ofJson d.toJson = .ok d := by
  obtain ⟨description, definition, loc⟩ := d
  have hdefinition := ObjectTypeDefinition.ofJson_toJson h
  cases description <;> cases loc <;>
    simp [ofJson, parts, toJson, lookup_cons, Json.optional, Json.node, hdefinition]

theorem DirectiveDefinition.ofJson_toJson {d : DirectiveDefinition}
    (h : ∀ a ∈ d.arguments, (Node.type a.type).JoinsConnect) :
    DirectiveDefinition.ofJson d.toJson = .ok d := by
  obtain ⟨description, n, as, ns, loc⟩ := d
  have has := InputValueDefinition.readList_toJson h
  have hns := readList_list fun n (_ : n ∈ ns) => n.ofJson_toJson
  cases description <;> cases loc <;>
    simp [ofJson, parts, toJson, lookup_cons, Json.optional, Json.node, has, hns]

theorem OperationDefinition.ofJson_toJson {kind : Kind} {owner : FieldOwner}
    {d : OperationDefinition} (has : ∀ a ∈ d.arguments, (Node.type a.type).JoinsConnect)
    (hresult : d.result.JoinsConnect owner) :
    OperationDefinition.ofJson kind owner (d.toJson kind owner) = .ok d := by
  obtain ⟨description, n, as, ds, result, loc⟩ := d
  have has := InputValueDefinition.readList_toJson has
  have htype : readResultTag (.str "TYPE") = .ok false := rfl
  have hfields : readResultTag (.str "FIELDS") = .ok true := rfl
  cases result with
  | type t =>
    have ht := TypeRef.ofJson_toJson hresult
    cases description <;> cases loc <;>
      simp [ofJson, parts, toJson, OperationResult.members, OperationResult.ofMembers,
        OperationResult.tagParts, OperationResult.typeParts, OperationResult.fieldsParts,
        lookup_cons, Json.optional, Json.node, has, ht, htype]
  | fields fs =>
    have hfs := FieldDefinition.readList_toJson hresult
    cases description <;> cases loc <;>
      simp [ofJson, parts, toJson, OperationResult.members, OperationResult.ofMembers,
        OperationResult.tagParts, OperationResult.typeParts, OperationResult.fieldsParts,
        lookup_cons, Json.optional, Json.node, has, hfs, hfields]

theorem FilterCondition.ofJson_toJson {c : FilterCondition}
    (h : ∀ a ∈ c.arguments, (Node.type a.type).JoinsConnect) :
    FilterCondition.ofJson c.toJson = .ok c := by
  obtain ⟨key, as, condition, loc⟩ := c
  have has := InputValueDefinition.readList_toJson h
  cases loc <;> simp [ofJson, parts, toJson, lookup_cons, Json.optional, Json.node, has]

theorem FilterDefinition.ofJson_toJson {d : FilterDefinition} (ht : (Node.type d.type).JoinsConnect)
    (hcs : ∀ c ∈ d.conditions, (Node.condition c).JoinsConnect) :
    FilterDefinition.ofJson d.toJson = .ok d := by
  obtain ⟨description, t, cs, loc⟩ := d
  have ht := TypeRef.ofJson_toJson ht
  have hcs := readList_list fun c hc =>
    FilterCondition.ofJson_toJson (Node.joinsConnect_condition.1 (hcs c hc))
  cases description <;> cases loc <;>
    simp [ofJson, parts, toJson, lookup_cons, Json.optional, Json.node, ht, hcs]

@[simp] theorem OrderExpression.ofJson_toJson (e : OrderExpression) :
    OrderExpression.ofJson e.toJson = .ok e := by
  obtain ⟨key, os, loc⟩ := e
  have hos := readList_list fun o (_ : o ∈ os) => o.ofJson_toJson
  cases loc <;> simp [ofJson, parts, toJson, lookup_cons, Json.optional, Json.node, hos]

theorem OrderDefinition.ofJson_toJson {d : OrderDefinition} (ht : (Node.type d.type).JoinsConnect) :
    OrderDefinition.ofJson d.toJson = .ok d := by
  obtain ⟨description, t, es, loc⟩ := d
  have ht := TypeRef.ofJson_toJson ht
  have hes := readList_list fun e (_ : e ∈ es) => e.ofJson_toJson
  cases description <;> cases loc <;>
    simp [ofJson, parts, toJson, lookup_cons, Json.optional, Json.node, ht, hes]

@[simp] theorem Definition.kind?_toJson (d : Definition) : d.toJson.kind? = some d.kind := by
  cases d <;> exact Json.kind?_node ..

theorem Definition.ofJson_toJson {d : Definition} (h : (Node.definition d).JoinsConnect) :
    Definition.ofJson d.toJson = .ok d := by
  obtain ⟨read, hread, hok⟩ : ∃ read, reader? d.kind = some read ∧ read d.toJson = .ok d := by
    cases d with
    | scalar d => exact ⟨_, rfl, congrArg (scalar <$> ·) d.ofJson_toJson⟩
    | object d =>
      exact ⟨_, rfl, congrArg (object <$> ·) (d.ofJson_toJson (Node.joinsConnect_object.1 h))⟩
    | interface d =>
      have hd := d.ofJson_toJson (Node.joinsConnect_interface.1 h)
      exact ⟨_, rfl, congrArg (interface <$> ·) hd⟩
    | union d => exact ⟨_, rfl, congrArg (union <$> ·) d.ofJson_toJson⟩
    | enum d => exact ⟨_, rfl, congrArg (enum <$> ·) d.ofJson_toJson⟩
    | inputObject d =>
      have hd := d.ofJson_toJson (Node.joinsConnect_inputObject.1 h)
      exact ⟨_, rfl, congrArg (inputObject <$> ·) hd⟩
    | typeExtension d =>
      have hd := d.ofJson_toJson (Node.joinsConnect_typeExtension.1 h)
      exact ⟨_, rfl, congrArg (typeExtension <$> ·) hd⟩
    | directive d =>
      have hd := d.ofJson_toJson (Node.joinsConnect_directiveDefinition.1 h)
      exact ⟨_, rfl, congrArg (directive <$> ·) hd⟩
    | mutation d =>
      obtain ⟨has, hresult⟩ := Node.joinsConnect_mutation.1 h
      exact ⟨_, rfl, congrArg (mutation <$> ·) (d.ofJson_toJson has hresult)⟩
    | query d =>
      obtain ⟨has, hresult⟩ := Node.joinsConnect_query.1 h
      exact ⟨_, rfl, congrArg (query <$> ·) (d.ofJson_toJson has hresult)⟩
    | filter d =>
      obtain ⟨ht, hcs⟩ := Node.joinsConnect_filter.1 h
      exact ⟨_, rfl, congrArg (filter <$> ·) (d.ofJson_toJson ht hcs)⟩
    | order d =>
      exact ⟨_, rfl, congrArg (order <$> ·) (d.ofJson_toJson (Node.joinsConnect_order.1 h))⟩
  exact byKind_of_ok d.kind?_toJson hread hok

theorem Document.ofJson_toJson {d : Document} (h : (Node.document d).JoinsConnect) :
    Document.ofJson d.toJson = .ok d := by
  obtain ⟨ds, loc⟩ := d
  have hds := readList_list fun x hx =>
    Definition.ofJson_toJson (Node.joinsConnect_document.1 h x hx)
  cases loc <;> simp [ofJson, parts, toJson, lookup_cons, Json.optional, Json.node, hds]

@[simp] theorem Node.kind?_toJson (n : Node) : n.toJson.kind? = some n.kind := by
  cases n with
  | value v => cases v <;> exact Json.kind?_node ..
  | type t => cases t <;> exact Json.kind?_node ..
  | definition d => exact d.kind?_toJson
  | _ => exact Json.kind?_node ..

/-- A node is read back from its JSON form. -/
theorem Node.ofJson_toJson {n : Node} (h : n.JoinsConnect) : Node.ofJson n.toJson = .ok n := by
  obtain ⟨read, hread, hok⟩ : ∃ read, reader? n.kind = some read ∧ read n.toJson = .ok n := by
    cases n with
    | name n => exact ⟨_, rfl, congrArg (name <$> ·) n.ofJson_toJson⟩
    | document d => exact ⟨_, rfl, congrArg (document <$> ·) (d.ofJson_toJson h)⟩
    | value v => cases v <;> exact ⟨_, rfl, congrArg (value <$> ·) (Value.ofJson_toJson _)⟩
    | objectField f => exact ⟨_, rfl, congrArg (objectField <$> ·) f.ofJson_toJson⟩
    | argument a => exact ⟨_, rfl, congrArg (argument <$> ·) a.ofJson_toJson⟩
    | directive d => exact ⟨_, rfl, congrArg (directive <$> ·) d.ofJson_toJson⟩
    | type t => cases t <;> exact ⟨_, rfl, congrArg (type <$> ·) (TypeRef.ofJson_toJson h)⟩
    | inputValue d =>
      have hd := d.ofJson_toJson (joinsConnect_inputValue.1 h)
      exact ⟨_, rfl, congrArg (inputValue <$> ·) hd⟩
    | field owner d => cases owner <;> exact ⟨_, rfl, congrArg (field _ <$> ·) (d.ofJson_toJson h)⟩
    | enumValue d => exact ⟨_, rfl, congrArg (enumValue <$> ·) d.ofJson_toJson⟩
    | definition d =>
      cases d <;> exact ⟨_, rfl, congrArg (definition <$> ·) (Definition.ofJson_toJson h)⟩
    | condition c =>
      have hc := c.ofJson_toJson (joinsConnect_condition.1 h)
      exact ⟨_, rfl, congrArg (condition <$> ·) hc⟩
    | ordering e => exact ⟨_, rfl, congrArg (ordering <$> ·) e.ofJson_toJson⟩
  exact byKind_of_ok n.kind?_toJson hread hok

/-- The JSON form of a node is printed like the node. -/
theorem Node.print_toJson {n : Node} (h : n.JoinsConnect) : n.toJson.print = .ok n.print := by
  rw [Json.print, kind?_toJson, ofJson_toJson h]
  rfl

end SchemaLang

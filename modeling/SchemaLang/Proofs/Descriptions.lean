import SchemaLang.Proofs.Contract

/-!
# The descriptions of a document

`mapDescriptions f` applies `f` to every description below and including the given node and touches
nothing else; `descriptions` lists them. The object in an extension has no description that could be
written, so it is left alone there. What is in the contract but for its descriptions is in it once
the descriptions are.
-/

namespace SchemaLang

variable (f : String → Option String)

def InputValueDefinition.mapDescriptions (d : InputValueDefinition) : InputValueDefinition :=
  { d with description := d.description.bind f }

def FieldDefinition.mapDescriptions (d : FieldDefinition) : FieldDefinition :=
  { d with description := d.description.bind f, arguments := d.arguments.map (·.mapDescriptions f) }

def EnumValueDefinition.mapDescriptions (d : EnumValueDefinition) : EnumValueDefinition :=
  { d with description := d.description.bind f }

def ScalarTypeDefinition.mapDescriptions (d : ScalarTypeDefinition) : ScalarTypeDefinition :=
  { d with description := d.description.bind f }

/-- An object but for its own description. -/
def ObjectTypeDefinition.mapFieldDescriptions (d : ObjectTypeDefinition) : ObjectTypeDefinition :=
  { d with fields := d.fields.map (·.mapDescriptions f) }

def ObjectTypeDefinition.mapDescriptions (d : ObjectTypeDefinition) : ObjectTypeDefinition :=
  { d.mapFieldDescriptions f with description := d.description.bind f }

def InterfaceTypeDefinition.mapDescriptions (d : InterfaceTypeDefinition) :
    InterfaceTypeDefinition :=
  { d with description := d.description.bind f, fields := d.fields.map (·.mapDescriptions f) }

def UnionTypeDefinition.mapDescriptions (d : UnionTypeDefinition) : UnionTypeDefinition :=
  { d with description := d.description.bind f }

def EnumTypeDefinition.mapDescriptions (d : EnumTypeDefinition) : EnumTypeDefinition :=
  { d with description := d.description.bind f, values := d.values.map (·.mapDescriptions f) }

def InputObjectTypeDefinition.mapDescriptions (d : InputObjectTypeDefinition) :
    InputObjectTypeDefinition :=
  { d with description := d.description.bind f, fields := d.fields.map (·.mapDescriptions f) }

/-- The object keeps its own description, which is never written. -/
def TypeExtensionDefinition.mapDescriptions (d : TypeExtensionDefinition) :
    TypeExtensionDefinition :=
  { d with description := d.description.bind f, definition := d.definition.mapFieldDescriptions f }

def DirectiveDefinition.mapDescriptions (d : DirectiveDefinition) : DirectiveDefinition :=
  { d with description := d.description.bind f, arguments := d.arguments.map (·.mapDescriptions f) }

def OperationResult.mapDescriptions : OperationResult → OperationResult
  | .type t => .type t
  | .fields ds => .fields (ds.map (·.mapDescriptions f))

def OperationDefinition.mapDescriptions (d : OperationDefinition) : OperationDefinition :=
  { d with
    description := d.description.bind f
    arguments := d.arguments.map (·.mapDescriptions f)
    result := d.result.mapDescriptions f }

def FilterCondition.mapDescriptions (c : FilterCondition) : FilterCondition :=
  { c with key := c.key.mapDescriptions f, arguments := c.arguments.map (·.mapDescriptions f) }

def FilterDefinition.mapDescriptions (d : FilterDefinition) : FilterDefinition :=
  { d with
    description := d.description.bind f, conditions := d.conditions.map (·.mapDescriptions f) }

def OrderExpression.mapDescriptions (e : OrderExpression) : OrderExpression :=
  { e with key := e.key.mapDescriptions f }

def OrderDefinition.mapDescriptions (d : OrderDefinition) : OrderDefinition :=
  { d with
    description := d.description.bind f, expressions := d.expressions.map (·.mapDescriptions f) }

def Definition.mapDescriptions : Definition → Definition
  | .scalar d => .scalar (d.mapDescriptions f)
  | .object d => .object (d.mapDescriptions f)
  | .interface d => .interface (d.mapDescriptions f)
  | .union d => .union (d.mapDescriptions f)
  | .enum d => .enum (d.mapDescriptions f)
  | .inputObject d => .inputObject (d.mapDescriptions f)
  | .typeExtension d => .typeExtension (d.mapDescriptions f)
  | .directive d => .directive (d.mapDescriptions f)
  | .mutation d => .mutation (d.mapDescriptions f)
  | .query d => .query (d.mapDescriptions f)
  | .filter d => .filter (d.mapDescriptions f)
  | .order d => .order (d.mapDescriptions f)

/-- Changes or drops every description of the document. -/
def Document.mapDescriptions (d : Document) : Document :=
  { d with definitions := d.definitions.map (·.mapDescriptions f) }

def InputValueDefinition.descriptions (d : InputValueDefinition) : List String :=
  d.description.toList

def FieldDefinition.descriptions (d : FieldDefinition) : List String :=
  d.description.toList ++ d.arguments.flatMap (·.descriptions)

def EnumValueDefinition.descriptions (d : EnumValueDefinition) : List String := d.description.toList

def ScalarTypeDefinition.descriptions (d : ScalarTypeDefinition) : List String :=
  d.description.toList

/-- Those of an object but for its own. -/
def ObjectTypeDefinition.fieldDescriptions (d : ObjectTypeDefinition) : List String :=
  d.fields.flatMap (·.descriptions)

def ObjectTypeDefinition.descriptions (d : ObjectTypeDefinition) : List String :=
  d.description.toList ++ d.fieldDescriptions

def InterfaceTypeDefinition.descriptions (d : InterfaceTypeDefinition) : List String :=
  d.description.toList ++ d.fields.flatMap (·.descriptions)

def UnionTypeDefinition.descriptions (d : UnionTypeDefinition) : List String := d.description.toList

def EnumTypeDefinition.descriptions (d : EnumTypeDefinition) : List String :=
  d.description.toList ++ d.values.flatMap (·.descriptions)

def InputObjectTypeDefinition.descriptions (d : InputObjectTypeDefinition) : List String :=
  d.description.toList ++ d.fields.flatMap (·.descriptions)

def TypeExtensionDefinition.descriptions (d : TypeExtensionDefinition) : List String :=
  d.description.toList ++ d.definition.fieldDescriptions

def DirectiveDefinition.descriptions (d : DirectiveDefinition) : List String :=
  d.description.toList ++ d.arguments.flatMap (·.descriptions)

def OperationResult.descriptions : OperationResult → List String
  | .type _ => []
  | .fields ds => ds.flatMap (·.descriptions)

def OperationDefinition.descriptions (d : OperationDefinition) : List String :=
  d.description.toList ++ (d.arguments.flatMap (·.descriptions) ++ d.result.descriptions)

def FilterCondition.descriptions (c : FilterCondition) : List String :=
  c.key.descriptions ++ c.arguments.flatMap (·.descriptions)

def FilterDefinition.descriptions (d : FilterDefinition) : List String :=
  d.description.toList ++ d.conditions.flatMap (·.descriptions)

def OrderExpression.descriptions (e : OrderExpression) : List String := e.key.descriptions

def OrderDefinition.descriptions (d : OrderDefinition) : List String :=
  d.description.toList ++ d.expressions.flatMap (·.descriptions)

def Definition.descriptions : Definition → List String
  | .scalar d => d.descriptions
  | .object d => d.descriptions
  | .interface d => d.descriptions
  | .union d => d.descriptions
  | .enum d => d.descriptions
  | .inputObject d => d.descriptions
  | .typeExtension d => d.descriptions
  | .directive d => d.descriptions
  | .mutation d => d.descriptions
  | .query d => d.descriptions
  | .filter d => d.descriptions
  | .order d => d.descriptions

/-- Every description of the document, in the order of its parts. -/
def Document.descriptions (d : Document) : List String := d.definitions.flatMap (·.descriptions)

/-- Every description is kept. -/
@[simp] theorem InputValueDefinition.mapDescriptions_some (d : InputValueDefinition) :
    d.mapDescriptions some = d := by
  simp [mapDescriptions]

@[simp] theorem FieldDefinition.mapDescriptions_some (d : FieldDefinition) :
    d.mapDescriptions some = d := by
  simp [mapDescriptions]

@[simp] theorem EnumValueDefinition.mapDescriptions_some (d : EnumValueDefinition) :
    d.mapDescriptions some = d := by
  simp [mapDescriptions]

@[simp] theorem ObjectTypeDefinition.mapFieldDescriptions_some (d : ObjectTypeDefinition) :
    d.mapFieldDescriptions some = d := by
  simp [mapFieldDescriptions]

@[simp] theorem OperationDefinition.mapDescriptions_some (d : OperationDefinition) :
    d.mapDescriptions some = d := by
  cases d with
  | mk text n as ds r loc => cases r <;> simp [mapDescriptions, OperationResult.mapDescriptions]

@[simp] theorem FilterCondition.mapDescriptions_some (c : FilterCondition) :
    c.mapDescriptions some = c := by
  simp [mapDescriptions]

@[simp] theorem OrderExpression.mapDescriptions_some (e : OrderExpression) :
    e.mapDescriptions some = e := by
  simp [mapDescriptions]

@[simp] theorem Definition.mapDescriptions_some (d : Definition) : d.mapDescriptions some = d := by
  cases d with
  | scalar d => simp [mapDescriptions, ScalarTypeDefinition.mapDescriptions]
  | object d => simp [mapDescriptions, ObjectTypeDefinition.mapDescriptions]
  | interface d => simp [mapDescriptions, InterfaceTypeDefinition.mapDescriptions]
  | union d => simp [mapDescriptions, UnionTypeDefinition.mapDescriptions]
  | enum d => simp [mapDescriptions, EnumTypeDefinition.mapDescriptions]
  | inputObject d => simp [mapDescriptions, InputObjectTypeDefinition.mapDescriptions]
  | typeExtension d => simp [mapDescriptions, TypeExtensionDefinition.mapDescriptions]
  | directive d => simp [mapDescriptions, DirectiveDefinition.mapDescriptions]
  | mutation d => simp [mapDescriptions]
  | query d => simp [mapDescriptions]
  | filter d => simp [mapDescriptions, FilterDefinition.mapDescriptions]
  | order d => simp [mapDescriptions, OrderDefinition.mapDescriptions]

@[simp] theorem Document.mapDescriptions_some (d : Document) : d.mapDescriptions some = d := by
  simp [mapDescriptions]

section Agreement

variable {f} {g : String → Option String}

/-- The own description of a node changes in the same way. -/
theorem bind_congr_of_toList {description : Option String}
    (h : ∀ t ∈ description.toList, f t = g t) : description.bind f = description.bind g :=
  Option.bind_congr fun t ht => h t (Option.mem_toList.2 ht)

/-- The parts of a node change in the same way. -/
theorem map_congr_of_flatMap {α : Type} {part part' : α → α} {texts : α → List String}
    {parts : List α} (hpart : ∀ a, (∀ t ∈ texts a, f t = g t) → part a = part' a)
    (h : ∀ t ∈ parts.flatMap texts, f t = g t) : parts.map part = parts.map part' :=
  List.map_congr_left fun a ha => hpart a (List.forall_mem_flatMap.1 h a ha)

/-- The own description of a node and its parts change in the same way. -/
theorem congr_of_append {α : Type} {part part' : α → α} {texts : α → List String} {parts : List α}
    {description : Option String} (hpart : ∀ a, (∀ t ∈ texts a, f t = g t) → part a = part' a)
    (h : ∀ t ∈ description.toList ++ parts.flatMap texts, f t = g t) :
    description.bind f = description.bind g ∧ parts.map part = parts.map part' := by
  obtain ⟨hown, hparts⟩ := List.forall_mem_append.1 h
  exact ⟨bind_congr_of_toList hown, map_congr_of_flatMap hpart hparts⟩

theorem InputValueDefinition.mapDescriptions_congr (d : InputValueDefinition)
    (h : ∀ t ∈ d.descriptions, f t = g t) : d.mapDescriptions f = d.mapDescriptions g := by
  rw [mapDescriptions, mapDescriptions, bind_congr_of_toList h]

theorem FieldDefinition.mapDescriptions_congr (d : FieldDefinition)
    (h : ∀ t ∈ d.descriptions, f t = g t) : d.mapDescriptions f = d.mapDescriptions g := by
  obtain ⟨hown, harguments⟩ := congr_of_append InputValueDefinition.mapDescriptions_congr h
  rw [mapDescriptions, mapDescriptions, hown, harguments]

theorem EnumValueDefinition.mapDescriptions_congr (d : EnumValueDefinition)
    (h : ∀ t ∈ d.descriptions, f t = g t) : d.mapDescriptions f = d.mapDescriptions g := by
  rw [mapDescriptions, mapDescriptions, bind_congr_of_toList h]

private theorem ObjectTypeDefinition.mapFieldDescriptions_congr (d : ObjectTypeDefinition)
    (h : ∀ t ∈ d.fieldDescriptions, f t = g t) :
    d.mapFieldDescriptions f = d.mapFieldDescriptions g := by
  rw [mapFieldDescriptions, mapFieldDescriptions,
    map_congr_of_flatMap FieldDefinition.mapDescriptions_congr h]

theorem OperationResult.mapDescriptions_congr (r : OperationResult)
    (h : ∀ t ∈ r.descriptions, f t = g t) : r.mapDescriptions f = r.mapDescriptions g := by
  cases r with
  | type t => rfl
  | fields ds =>
    rw [mapDescriptions, mapDescriptions,
      map_congr_of_flatMap FieldDefinition.mapDescriptions_congr h]

theorem OperationDefinition.mapDescriptions_congr (d : OperationDefinition)
    (h : ∀ t ∈ d.descriptions, f t = g t) : d.mapDescriptions f = d.mapDescriptions g := by
  obtain ⟨hown, hparts⟩ := List.forall_mem_append.1 h
  obtain ⟨harguments, hresult⟩ := List.forall_mem_append.1 hparts
  rw [mapDescriptions, mapDescriptions, bind_congr_of_toList hown,
    map_congr_of_flatMap InputValueDefinition.mapDescriptions_congr harguments,
    OperationResult.mapDescriptions_congr _ hresult]

theorem FilterCondition.mapDescriptions_congr (c : FilterCondition)
    (h : ∀ t ∈ c.descriptions, f t = g t) : c.mapDescriptions f = c.mapDescriptions g := by
  obtain ⟨hkey, harguments⟩ := List.forall_mem_append.1 h
  rw [mapDescriptions, mapDescriptions, EnumValueDefinition.mapDescriptions_congr _ hkey,
    map_congr_of_flatMap InputValueDefinition.mapDescriptions_congr harguments]

theorem OrderExpression.mapDescriptions_congr (e : OrderExpression)
    (h : ∀ t ∈ e.descriptions, f t = g t) : e.mapDescriptions f = e.mapDescriptions g := by
  rw [mapDescriptions, mapDescriptions, EnumValueDefinition.mapDescriptions_congr _ h]

theorem Definition.mapDescriptions_congr (d : Definition) (h : ∀ t ∈ d.descriptions, f t = g t) :
    d.mapDescriptions f = d.mapDescriptions g := by
  -- A definition has its own description and those of one list of parts, or nothing but its own.
  cases d with
  | scalar d =>
    simp only [mapDescriptions, ScalarTypeDefinition.mapDescriptions, bind_congr_of_toList h]
  | union d =>
    simp only [mapDescriptions, UnionTypeDefinition.mapDescriptions, bind_congr_of_toList h]
  | object d =>
    obtain ⟨hown, hfields⟩ := List.forall_mem_append.1 h
    simp only [mapDescriptions, ObjectTypeDefinition.mapDescriptions, bind_congr_of_toList hown,
      d.mapFieldDescriptions_congr hfields]
  | typeExtension d =>
    obtain ⟨hown, hfields⟩ := List.forall_mem_append.1 h
    simp only [mapDescriptions, TypeExtensionDefinition.mapDescriptions, bind_congr_of_toList hown,
      d.definition.mapFieldDescriptions_congr hfields]
  | interface d =>
    obtain ⟨hown, hparts⟩ := congr_of_append FieldDefinition.mapDescriptions_congr h
    simp only [mapDescriptions, InterfaceTypeDefinition.mapDescriptions, hown, hparts]
  | enum d =>
    obtain ⟨hown, hparts⟩ := congr_of_append EnumValueDefinition.mapDescriptions_congr h
    simp only [mapDescriptions, EnumTypeDefinition.mapDescriptions, hown, hparts]
  | inputObject d =>
    obtain ⟨hown, hparts⟩ := congr_of_append InputValueDefinition.mapDescriptions_congr h
    simp only [mapDescriptions, InputObjectTypeDefinition.mapDescriptions, hown, hparts]
  | directive d =>
    obtain ⟨hown, hparts⟩ := congr_of_append InputValueDefinition.mapDescriptions_congr h
    simp only [mapDescriptions, DirectiveDefinition.mapDescriptions, hown, hparts]
  | mutation d => exact congrArg mutation (d.mapDescriptions_congr h)
  | query d => exact congrArg query (d.mapDescriptions_congr h)
  | filter d =>
    obtain ⟨hown, hparts⟩ := congr_of_append FilterCondition.mapDescriptions_congr h
    simp only [mapDescriptions, FilterDefinition.mapDescriptions, hown, hparts]
  | order d =>
    obtain ⟨hown, hparts⟩ := congr_of_append OrderExpression.mapDescriptions_congr h
    simp only [mapDescriptions, OrderDefinition.mapDescriptions, hown, hparts]

/-- Only what becomes of the descriptions of the document matters. -/
theorem Document.mapDescriptions_congr (d : Document) (h : ∀ t ∈ d.descriptions, f t = g t) :
    d.mapDescriptions f = d.mapDescriptions g := by
  rw [mapDescriptions, mapDescriptions, map_congr_of_flatMap Definition.mapDescriptions_congr h]

end Agreement

section Conformity

variable {f} {g : String → Option String} {depth : Nat}

/-- What is written for the description conforms. -/
theorem conformsDescription_bind {description : Option String}
    (h : ∀ t ∈ description.toList, ConformsDescription (f t)) :
    ConformsDescription (description.bind f) := by
  intro text htext
  obtain ⟨t, ht, htext⟩ := Option.bind_eq_some_iff.1 htext
  exact h t (Option.mem_toList.2 ht) text htext

/-- Every part conforms once its descriptions do. -/
theorem conforms_parts {α : Type} {part part' : α → α} {texts : α → List String} {P : α → Prop}
    {parts : List α}
    (hpart : ∀ a, P (part' a) → (∀ t ∈ texts a, ConformsDescription (f t)) → P (part a))
    (h : ∀ a ∈ parts.map part', P a) (ht : ∀ t ∈ parts.flatMap texts, ConformsDescription (f t)) :
    ∀ a ∈ parts.map part, P a :=
  List.forall_mem_map.2 fun a ha =>
    hpart a (List.forall_mem_map.1 h a ha) (List.forall_mem_flatMap.1 ht a ha)

theorem InputValueDefinition.conforms_mapDescriptions (d : InputValueDefinition)
    (h : (d.mapDescriptions g).Conforms depth)
    (ht : ∀ t ∈ d.descriptions, ConformsDescription (f t)) : (d.mapDescriptions f).Conforms depth :=
  { h with description := conformsDescription_bind ht }

theorem FieldDefinition.conforms_mapDescriptions {admits : TypeRef → Prop} (d : FieldDefinition)
    (h : (d.mapDescriptions g).Conforms admits depth)
    (ht : ∀ t ∈ d.descriptions, ConformsDescription (f t)) :
    (d.mapDescriptions f).Conforms admits depth := by
  obtain ⟨hown, harguments⟩ := List.forall_mem_append.1 ht
  exact { h with
    description := conformsDescription_bind hown
    arguments :=
      conforms_parts InputValueDefinition.conforms_mapDescriptions h.arguments harguments }

theorem EnumValueDefinition.conforms_mapDescriptions (d : EnumValueDefinition)
    (h : (d.mapDescriptions g).Conforms depth)
    (ht : ∀ t ∈ d.descriptions, ConformsDescription (f t)) : (d.mapDescriptions f).Conforms depth :=
  { h with description := conformsDescription_bind ht }

private theorem ObjectTypeDefinition.conforms_mapFieldDescriptions (d : ObjectTypeDefinition)
    (h : (d.mapFieldDescriptions g).Conforms depth)
    (ht : ∀ t ∈ d.fieldDescriptions, ConformsDescription (f t)) :
    (d.mapFieldDescriptions f).Conforms depth :=
  { h with fields := conforms_parts FieldDefinition.conforms_mapDescriptions h.fields ht }

theorem ObjectTypeDefinition.conforms_mapDescriptions (d : ObjectTypeDefinition)
    (h : (d.mapDescriptions g).Conforms depth)
    (ht : ∀ t ∈ d.descriptions, ConformsDescription (f t)) :
    (d.mapDescriptions f).Conforms depth := by
  obtain ⟨hown, hfields⟩ := List.forall_mem_append.1 ht
  exact { h with
    description := conformsDescription_bind hown
    fields := conforms_parts FieldDefinition.conforms_mapDescriptions h.fields hfields }

theorem OperationDefinition.conforms_mapDescriptions {P : List FieldDefinition → Prop}
    (hP : ∀ ds : List FieldDefinition, P (ds.map (·.mapDescriptions g)) →
      (∀ t ∈ ds.flatMap (·.descriptions), ConformsDescription (f t)) →
      P (ds.map (·.mapDescriptions f)))
    (d : OperationDefinition) (h : (d.mapDescriptions g).Conforms P depth)
    (ht : ∀ t ∈ d.descriptions, ConformsDescription (f t)) :
    (d.mapDescriptions f).Conforms P depth := by
  obtain ⟨hown, hparts⟩ := List.forall_mem_append.1 ht
  obtain ⟨harguments, hresult⟩ := List.forall_mem_append.1 hparts
  refine { h with
    description := conformsDescription_bind hown
    arguments := conforms_parts InputValueDefinition.conforms_mapDescriptions h.arguments harguments
    result := ?_ }
  obtain ⟨text, n, as, ds, r, loc⟩ := d
  cases r with
  | type t => exact h.result
  | fields fs => exact hP fs h.result hresult

theorem FilterCondition.conforms_mapDescriptions (c : FilterCondition)
    (h : (c.mapDescriptions g).Conforms depth)
    (ht : ∀ t ∈ c.descriptions, ConformsDescription (f t)) :
    (c.mapDescriptions f).Conforms depth := by
  obtain ⟨hkey, harguments⟩ := List.forall_mem_append.1 ht
  exact { h with
    key := c.key.conforms_mapDescriptions h.key hkey
    arguments :=
      conforms_parts InputValueDefinition.conforms_mapDescriptions h.arguments harguments }

theorem OrderExpression.conforms_mapDescriptions (e : OrderExpression)
    (h : (e.mapDescriptions g).Conforms depth)
    (ht : ∀ t ∈ e.descriptions, ConformsDescription (f t)) : (e.mapDescriptions f).Conforms depth :=
  { h with key := e.key.conforms_mapDescriptions h.key ht }

theorem Definition.conforms_mapDescriptions (d : Definition)
    (h : (d.mapDescriptions g).Conforms depth)
    (ht : ∀ t ∈ d.descriptions, ConformsDescription (f t)) :
    (d.mapDescriptions f).Conforms depth := by
  cases d with
  | scalar d => exact { (h : (d.mapDescriptions g).Conforms depth) with
    description := conformsDescription_bind ht }
  | object d => exact d.conforms_mapDescriptions h ht
  | interface d =>
    obtain ⟨hown, hparts⟩ := List.forall_mem_append.1 ht
    have h : (d.mapDescriptions g).Conforms depth := h
    exact { h with
      description := conformsDescription_bind hown
      fields := conforms_parts FieldDefinition.conforms_mapDescriptions h.fields hparts }
  | union d => exact { (h : (d.mapDescriptions g).Conforms depth) with
    description := conformsDescription_bind ht }
  | enum d =>
    obtain ⟨hown, hparts⟩ := List.forall_mem_append.1 ht
    have h : (d.mapDescriptions g).Conforms depth := h
    exact { h with
      description := conformsDescription_bind hown
      values_ne_nil := by simpa [EnumTypeDefinition.mapDescriptions] using h.values_ne_nil
      values := conforms_parts EnumValueDefinition.conforms_mapDescriptions h.values hparts }
  | inputObject d =>
    obtain ⟨hown, hparts⟩ := List.forall_mem_append.1 ht
    have h : (d.mapDescriptions g).Conforms depth := h
    exact { h with
      description := conformsDescription_bind hown
      fields := conforms_parts InputValueDefinition.conforms_mapDescriptions h.fields hparts }
  | typeExtension d =>
    obtain ⟨hown, hparts⟩ := List.forall_mem_append.1 ht
    have h : (d.mapDescriptions g).Conforms depth := h
    exact { h with
      description := conformsDescription_bind hown
      definition := d.definition.conforms_mapFieldDescriptions h.definition hparts }
  | directive d =>
    obtain ⟨hown, hparts⟩ := List.forall_mem_append.1 ht
    have h : (d.mapDescriptions g).Conforms depth := h
    exact { h with
      description := conformsDescription_bind hown
      arguments := conforms_parts InputValueDefinition.conforms_mapDescriptions h.arguments hparts }
  | mutation d =>
    exact d.conforms_mapDescriptions (fun _ h ht =>
      conforms_parts FieldDefinition.conforms_mapDescriptions h ht) h ht
  | query d =>
    refine d.conforms_mapDescriptions (fun fs h ht => ⟨?_, ?_⟩) h ht
    · simpa using h.1
    · exact conforms_parts FieldDefinition.conforms_mapDescriptions h.2 ht
  | filter d =>
    obtain ⟨hown, hparts⟩ := List.forall_mem_append.1 ht
    have h : (d.mapDescriptions g).Conforms depth := h
    exact { h with
      description := conformsDescription_bind hown
      conditions := conforms_parts FilterCondition.conforms_mapDescriptions h.conditions hparts }
  | order d =>
    obtain ⟨hown, hparts⟩ := List.forall_mem_append.1 ht
    have h : (d.mapDescriptions g).Conforms depth := h
    exact { h with
      description := conformsDescription_bind hown
      expressions := conforms_parts OrderExpression.conforms_mapDescriptions h.expressions hparts }

/-- A document conforms once its descriptions do, whatever they were before. -/
theorem Document.conforms_mapDescriptions (d : Document) (h : (d.mapDescriptions g).Conforms depth)
    (ht : ∀ t ∈ d.descriptions, ConformsDescription (f t)) :
    (d.mapDescriptions f).Conforms depth where
  definitions_ne_nil := by simpa [mapDescriptions] using h.definitions_ne_nil
  definitions := conforms_parts Definition.conforms_mapDescriptions h.definitions ht

end Conformity

end SchemaLang

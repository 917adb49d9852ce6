import SchemaLang.Proofs.Codec.Tolerance

/-!
# Readers that tolerate a change

Structure by structure: each part looks for a member that is in the table of the place, and reads
it as the table says. Where the kind says how a node is read, a change does not touch the kind.
-/

namespace SchemaLang

open Json (Agrees Part Parts bind_eq_ok)

variable {m ms ms' : List (String × Json)}

theorem Source.keeps_parts : parts.Keeps Field.ofSource ms :=
  .and (.and (.of _) (.required (by simp) Place.reads_string trivial))
    (.required (by simp) Place.reads_string trivial)

theorem Loc.keeps_parts : parts.Keeps Field.ofLoc ms := by
  refine .and (.and (.and (.of _) (.required ?_ Place.reads_nat trivial))
    (.required ?_ Place.reads_nat trivial)) (.nullable ?_ Place.reads_source trivial)
  all_goals simp

theorem Name.keeps_parts : parts.Keeps (Field.ofKind m .name) ms :=
  .and (.and (.of _) (.required (by simp) Place.reads_string trivial)) (.loc (by simp))

theorem NamedType.keeps_parts : parts.Keeps (Field.ofKind m .namedType) ms :=
  .and (.and (.of _) (.name (by simp))) (.loc (by simp))

theorem ConnectionType.keeps_parts : parts.Keeps (Field.ofKind m .connectionType) ms := by
  refine .and (.and (.and (.and (.and (.of _) (.required ?_ Place.reads_namedType trivial))
    (.nullable ?_ Place.reads_namedType trivial)) (.required ?_ Place.reads_direction trivial))
    (.required ?_ Place.reads_cardinality trivial)) (.loc ?_)
  all_goals simp

theorem EdgeType.keeps_parts : parts.Keeps (Field.ofKind m .edgeType) ms := by
  refine .and (.and (.and (.and (.of _) (.required ?_ Place.reads_namedType trivial))
    (.nullable ?_ Place.reads_namedType trivial)) (.required ?_ Place.reads_direction trivial))
    (.loc ?_)
  all_goals simp

theorem ConnectionJoinType.keeps_parts : parts.Keeps (Field.ofKind m .connectionJoinType) ms := by
  have hitem : ∀ before after {j j'}, Place.connection.Keeps j j' →
      Agrees (readConnections (.arr (before ++ j :: after)))
        (readConnections (.arr (before ++ j' :: after))) :=
    fun before after _ _ hkeeps =>
      (Place.reads_connection.item hkeeps before after).bind fun _ => .refl _
  have hplain : Place.connection.IsPlain := trivial
  exact .and (.and (.of _) (.requiredList (by simp) hplain hitem)) (.loc (by simp))

theorem TypeRef.keeps_parts (make : TypeRef → Option Loc → TypeRef) :
    (parts make TypeRef.ofJson).Keeps [.type, .loc] ms :=
  .and (.and (.of _) (.type (by simp))) (.loc (by simp))

theorem TypeRef.agrees_ofJson {k : Kind} (hk : Json.kind? (.obj ms) = some k)
    (hk' : Json.kind? (.obj ms') = some k) (h : Tolerates (Field.ofKind m k) ms ms') :
    Agrees (TypeRef.ofJson (.obj ms)) (TypeRef.ofJson (.obj ms')) := by
  rw [ofJson_eq, ofJson_eq]
  refine Agrees.byKind hk hk' fun read hread => ?_
  cases k with
  | namedType =>
    cases hread
    exact (NamedType.keeps_parts.read h _).map _
  | listType =>
    cases hread
    exact (keeps_parts _).read h _
  | nonNullType =>
    cases hread
    exact (keeps_parts _).read h _
  | connectionType =>
    cases hread
    exact (ConnectionType.keeps_parts.read h _).map _
  | connectionJoinType =>
    cases hread
    exact (ConnectionJoinType.keeps_parts.read h _).map _
  | edgeType =>
    cases hread
    exact (EdgeType.keeps_parts.read h _).map _
  | _ => cases hread

private theorem Value.keeps_varParts : varParts.Keeps (Field.ofKind m .var) ms :=
  .and (.and (.of _) (.name (by simp))) (.loc (by simp))

private theorem Value.keeps_textParts (make : String → Option Loc → Value) :
    (textParts make).Keeps [⟨"value", .required, .scalar⟩, .loc] ms :=
  .and (.and (.of _) (.required (by simp) Place.reads_string trivial)) (.loc (by simp))

private theorem Value.keeps_booleanParts : booleanParts.Keeps (Field.ofKind m .booleanValue) ms :=
  .and (.and (.of _) (.required (by simp) Place.reads_bool trivial)) (.loc (by simp))

private theorem Value.keeps_listParts :
    (listParts (Json.readList Value.ofJson)).Keeps (Field.ofKind m .listValue) ms :=
  .and (.and (.of _) (.list (by simp) Place.reads_value trivial)) (.loc (by simp))

theorem ObjectValue.keeps_parts :
    (parts (Json.readList ObjectFieldOf.ofJson)).Keeps (Field.ofKind m .objectValue) ms :=
  .and (.and (.of _) (.list (by simp) Place.reads_objectField trivial)) (.loc (by simp))

theorem Value.agrees_ofJson {k : Kind} (hk : Json.kind? (.obj ms) = some k)
    (hk' : Json.kind? (.obj ms') = some k) (h : Tolerates (Field.ofKind m k) ms ms') :
    Agrees (Value.ofJson (.obj ms)) (Value.ofJson (.obj ms')) := by
  rw [ofJson_eq, ofJson_eq]
  refine Agrees.byKind hk hk' fun read hread => ?_
  cases k with
  | var =>
    cases hread
    exact keeps_varParts.read h _
  | intValue | floatValue | stringValue | enumValue =>
    cases hread
    exact (keeps_textParts _).read h _
  | booleanValue =>
    cases hread
    exact keeps_booleanParts.read h _
  | listValue =>
    cases hread
    exact keeps_listParts.read h _
  | objectValue =>
    cases hread
    exact (ObjectValue.keeps_parts.read h _).map _
  | _ => cases hread

theorem ObjectFieldOf.keeps_parts :
    (parts Value.ofJson).Keeps (Field.ofKind m .objectField) ms := by
  refine .and (.and (.and (.of _) (.name ?_)) (.required ?_ Place.reads_value trivial)) (.loc ?_)
  all_goals simp

theorem ObjectFieldOf.agrees_ofJson (h : Tolerates (Field.ofKind m .objectField) ms ms') :
    Agrees (ObjectFieldOf.ofJson (.obj ms)) (ObjectFieldOf.ofJson (.obj ms')) := by
  rw [ofJson_eq, ofJson_eq]
  exact keeps_parts.read h _

theorem Argument.keeps_parts : parts.Keeps (Field.ofKind m .argument) ms := by
  refine .and (.and (.and (.of _) (.name ?_)) (.required ?_ Place.reads_value trivial)) (.loc ?_)
  all_goals simp

theorem Directive.keeps_parts : parts.Keeps (Field.ofKind m .directive) ms := by
  refine .and (.and (.and (.of _) (.name ?_)) (.list ?_ Place.reads_argument trivial)) (.loc ?_)
  all_goals simp

theorem InputValueDefinition.keeps_parts :
    parts.Keeps (Field.ofKind m .inputValueDefinition) ms := by
  refine .and (.and (.and (.and (.and (.and (.of _) (.description ?_)) (.name ?_)) (.type ?_))
    (.nullable ?_ Place.reads_value trivial)) (.directives ?_)) (.loc ?_)
  all_goals simp

theorem EnumValueDefinition.keeps_parts : parts.Keeps (Field.ofKind m .enumValueDefinition) ms := by
  refine .and (.and (.and (.and (.of _) (.description ?_)) (.name ?_)) (.directives ?_)) (.loc ?_)
  all_goals simp

theorem FieldDefinition.keeps_parts (owner : FieldOwner) :
    parts.Keeps (Field.ofKind m owner.kind) ms := by
  refine .and (.and (.and (.and (.and (.and (.of _) (.description ?_)) (.name ?_))
    (.arguments ?_)) (.type ?_)) (.directives ?_)) (.loc ?_)
  all_goals cases owner <;> simp [FieldOwner.kind]

theorem FilterCondition.keeps_parts (h : (Json.obj ms).IsFilledCondition) :
    parts.Keeps (Field.ofKind m .filterCondition) ms := by
  refine .and (.and (.and (.and (.of _) (.required ?_ Place.reads_enumValue trivial))
    (.arguments ?_)) (.requiredIf ?_ Place.reads_object (fun _ => trivial) fun _ => h)) (.loc ?_)
  all_goals simp

theorem OrderExpression.keeps_parts : parts.Keeps (Field.ofKind m .orderExpression) ms := by
  refine .and (.and (.and (.of _) (.required ?_ Place.reads_enumValue trivial))
    (.listIf ?_ Place.reads_object fun _ _ _ _ => trivial)) (.loc ?_)
  all_goals simp

theorem ScalarTypeDefinition.keeps_parts :
    parts.Keeps (Field.ofKind m .scalarTypeDefinition) ms := by
  refine .and (.and (.and (.and (.of _) (.description ?_)) (.name ?_)) (.directives ?_)) (.loc ?_)
  all_goals simp

theorem ObjectTypeDefinition.keeps_parts :
    parts.Keeps (Field.ofKind m .objectTypeDefinition) ms := by
  refine .and (.and (.and (.and (.and (.and (.of _) (.description ?_)) (.name ?_))
    (.list ?_ Place.reads_namedType trivial)) (.directives ?_))
    (.list ?_ (Place.reads_field .type) trivial)) (.loc ?_)
  all_goals simp

theorem InterfaceTypeDefinition.keeps_parts :
    parts.Keeps (Field.ofKind m .interfaceTypeDefinition) ms := by
  refine .and (.and (.and (.and (.and (.of _) (.description ?_)) (.name ?_)) (.directives ?_))
    (.list ?_ (Place.reads_field .type) trivial)) (.loc ?_)
  all_goals simp

theorem UnionTypeDefinition.keeps_parts : parts.Keeps (Field.ofKind m .unionTypeDefinition) ms := by
  refine .and (.and (.and (.and (.and (.of _) (.description ?_)) (.name ?_)) (.directives ?_))
    (.list ?_ Place.reads_namedType trivial)) (.loc ?_)
  all_goals simp

theorem EnumTypeDefinition.keeps_parts : parts.Keeps (Field.ofKind m .enumTypeDefinition) ms := by
  refine .and (.and (.and (.and (.and (.of _) (.description ?_)) (.name ?_)) (.directives ?_))
    (.list ?_ Place.reads_enumValue trivial)) (.loc ?_)
  all_goals simp

theorem InputObjectTypeDefinition.keeps_parts :
    parts.Keeps (Field.ofKind m .inputObjectTypeDefinition) ms := by
  refine .and (.and (.and (.and (.and (.of _) (.description ?_)) (.name ?_)) (.directives ?_))
    (.list ?_ Place.reads_inputValue trivial)) (.loc ?_)
  all_goals simp

theorem TypeExtensionDefinition.keeps_parts :
    parts.Keeps (Field.ofKind m .typeExtensionDefinition) ms := by
  refine .and (.and (.and (.of _) (.description ?_)) (.required ?_ Place.reads_objectType trivial))
    (.loc ?_)
  all_goals simp

theorem DirectiveDefinition.keeps_parts : parts.Keeps (Field.ofKind m .directiveDefinition) ms := by
  refine .and (.and (.and (.and (.and (.of _) (.description ?_)) (.name ?_)) (.arguments ?_))
    (.list ?_ Place.reads_name trivial)) (.loc ?_)
  all_goals simp

/-- The tag of the result stays the same, and so does what is looked for after it. -/
theorem OperationResult.agrees_ofMembers {owner : FieldOwner}
    (h : Tolerates (Field.ofOperation owner ms) ms ms') :
    Agrees (OperationResult.ofMembers owner ms) (OperationResult.ofMembers owner ms') := by
  intro r hr
  obtain ⟨isFields, htag, hr⟩ := bind_eq_ok.1 hr
  have hkeeps : tagParts.Keeps (Field.ofOperation owner ms) ms :=
    .and (.of _) (.required (by simp) Place.reads_resultTag trivial)
  refine bind_eq_ok.2 ⟨isFields, hkeeps.readMembers h isFields htag, ?_⟩
  have hread : (ms.lookup "result").map readResultTag = some (.ok isFields) := by
    obtain ⟨f, b, hf, hb, rfl⟩ := Parts.both_eq_ok.1 (Parts.readMembers_eq_ok.1 htag)
    obtain rfl := Except.ok.inj hf
    rcases Part.ofMembers_eq_ok.1 hb with ⟨j, hj, hread⟩ | ⟨-, habsent⟩
    · exact (congrArg _ hj).trans (congrArg some hread)
    · exact nomatch habsent
  cases isFields with
  | true =>
    have hfields : ⟨"fields", .requiredList, .field owner⟩ ∈ Field.ofOperation owner ms := by
      simp [Field.ofResult, hread]
    have hkeeps : (fieldsParts owner).Keeps (Field.ofOperation owner ms) ms :=
      .and (.of _) (.requiredList hfields trivial fun before after _ _ hkeeps =>
        (Place.reads_field owner).item hkeeps before after)
    exact (hkeeps.readMembers h).mapError _ r hr
  | false =>
    have hkeeps : typeParts.Keeps (Field.ofOperation owner ms) ms :=
      .and (.of _) (.type (by simp [Field.ofResult, hread]))
    exact (hkeeps.readMembers h).mapError _ r hr

theorem OperationDefinition.agrees_ofJson {kind : Kind} {owner : FieldOwner}
    (h : Tolerates (Field.ofOperation owner ms) ms ms') :
    Agrees (OperationDefinition.ofJson kind owner (.obj ms))
      (OperationDefinition.ofJson kind owner (.obj ms')) := by
  have hkeeps : parts.Keeps (Field.ofOperation owner ms) ms := by
    refine .and (.and (.and (.and (.and (.of _) (.description ?_)) (.name ?_)) (.arguments ?_))
      (.directives ?_)) (.loc ?_)
    all_goals simp
  exact .bind (hkeeps.readMembers h) fun _ =>
    .bind (OperationResult.agrees_ofMembers h) fun _ => .refl _

theorem FilterDefinition.keeps_parts (h : (Json.obj ms).IsFilledFilter) :
    parts.Keeps (Field.ofKind m .filterDefinition) ms := by
  refine .and (.and (.and (.and (.of _) (.description ?_)) (.type ?_))
    (.listIf ?_ Place.reads_condition h)) (.loc ?_)
  all_goals simp

theorem OrderDefinition.keeps_parts : parts.Keeps (Field.ofKind m .orderDefinition) ms := by
  refine .and (.and (.and (.and (.of _) (.description ?_)) (.type ?_))
    (.list ?_ Place.reads_ordering trivial)) (.loc ?_)
  all_goals simp

theorem Definition.agrees_ofJson {k : Kind} (hk : Json.kind? (.obj ms) = some k)
    (hk' : Json.kind? (.obj ms') = some k) (h : Tolerates (Field.ofKind ms k) ms ms')
    (hfilled : Place.definition.IsFilled (.obj ms)) :
    Agrees (Definition.ofJson (.obj ms)) (Definition.ofJson (.obj ms')) := by
  refine Agrees.byKind hk hk' fun read hread => ?_
  cases k with
  | scalarTypeDefinition =>
    cases hread
    exact (ScalarTypeDefinition.keeps_parts.read h _).map _
  | objectTypeDefinition =>
    cases hread
    exact (ObjectTypeDefinition.keeps_parts.read h _).map _
  | interfaceTypeDefinition =>
    cases hread
    exact (InterfaceTypeDefinition.keeps_parts.read h _).map _
  | unionTypeDefinition =>
    cases hread
    exact (UnionTypeDefinition.keeps_parts.read h _).map _
  | enumTypeDefinition =>
    cases hread
    exact (EnumTypeDefinition.keeps_parts.read h _).map _
  | inputObjectTypeDefinition =>
    cases hread
    exact (InputObjectTypeDefinition.keeps_parts.read h _).map _
  | typeExtensionDefinition =>
    cases hread
    exact (TypeExtensionDefinition.keeps_parts.read h _).map _
  | directiveDefinition =>
    cases hread
    exact (DirectiveDefinition.keeps_parts.read h _).map _
  | mutationDefinition | queryDefinition =>
    cases hread
    exact (OperationDefinition.agrees_ofJson h).map _
  | filterDefinition =>
    cases hread
    exact ((FilterDefinition.keeps_parts (hfilled hk)).read h _).map _
  | orderDefinition =>
    cases hread
    exact (OrderDefinition.keeps_parts.read h _).map _
  | _ => cases hread

theorem Document.keeps_parts (h : (Json.obj ms).IsFilledDocument) :
    parts.Keeps (Field.ofKind m .document) ms :=
  .and (.and (.of _) (.listIf (by simp) Place.reads_definition h)) (.loc (by simp))

theorem Node.agrees_ofJson {k : Kind} (hk : Json.kind? (.obj ms) = some k)
    (hk' : Json.kind? (.obj ms') = some k) (h : Tolerates (Field.ofKind ms k) ms ms')
    (hfilled : Place.node.IsFilled (.obj ms)) :
    Agrees (Node.ofJson (.obj ms)) (Node.ofJson (.obj ms')) := by
  have hvalue := Value.agrees_ofJson hk hk' h
  have htype := TypeRef.agrees_ofJson hk hk' h
  have hdefinition := Definition.agrees_ofJson hk hk' h hfilled.2.1
  refine Agrees.byKind hk hk' fun read hread => ?_
  cases k with
  | name =>
    cases hread
    exact (Name.keeps_parts.read h _).map _
  | document =>
    cases hread
    exact ((Document.keeps_parts (hfilled.2.2 hk)).read h _).map _
  | objectField =>
    cases hread
    exact (ObjectFieldOf.agrees_ofJson h).map _
  | argument =>
    cases hread
    exact (Argument.keeps_parts.read h _).map _
  | directive =>
    cases hread
    exact (Directive.keeps_parts.read h _).map _
  | inputValueDefinition =>
    cases hread
    exact (InputValueDefinition.keeps_parts.read h _).map _
  | fieldDefinition =>
    cases hread
    exact ((FieldDefinition.keeps_parts .type).read h _).map _
  | mutationFieldDefinition =>
    cases hread
    exact ((FieldDefinition.keeps_parts .mutation).read h _).map _
  | queryFieldDefinition =>
    cases hread
    exact ((FieldDefinition.keeps_parts .query).read h _).map _
  | enumValueDefinition =>
    cases hread
    exact (EnumValueDefinition.keeps_parts.read h _).map _
  | filterCondition =>
    cases hread
    exact ((FilterCondition.keeps_parts (hfilled.1 hk)).read h _).map _
  | orderExpression =>
    cases hread
    exact (OrderExpression.keeps_parts.read h _).map _
  | var | intValue | floatValue | stringValue | booleanValue | enumValue | listValue
    | objectValue =>
    cases hread
    exact hvalue.map _
  | namedType | listType | nonNullType | connectionType | connectionJoinType | edgeType =>
    cases hread
    exact htype.map _
  | _ =>
    cases hread
    exact hdefinition.map _

end SchemaLang

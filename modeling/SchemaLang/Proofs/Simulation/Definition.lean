import SchemaLang.Proofs.Simulation.Type

/-!
# Parses of definitions in step
-/

namespace SchemaLang.Parser

variable {m : Simulation}

private theorem simulates_inputValueDefinition (levels : Nat) :
    Simulates m (·.mapLoc m.relocate) (inputValueDefinition levels)
      (inputValueDefinition levels) := by
  refine Simulates.description fun d => Simulates.start fun hn => simulates_name.bind fun n => ?_
  refine (simulates_expect .colon).bind fun _ => (simulates_plainType levels).bind fun t => ?_
  refine (simulates_skip .equals).bind fun b => Simulates.ite ?_ ?_
  · have default : Simulates m (Option.map (Value.mapLoc m.relocate)) (some <$> value true levels)
        (some <$> value true levels) := (simulates_value true levels).map fun _ => rfl
    refine default.bind fun v => (simulates_directives levels).bind fun ds => ?_
    exact Simulates.located hn fun loc => Simulates.pure rfl
  · have default : Simulates m (Option.map (Value.mapLoc m.relocate)) (pure none) (pure none) :=
      Simulates.pure rfl
    refine default.bind fun v => (simulates_directives levels).bind fun ds => ?_
    exact Simulates.located hn fun loc => Simulates.pure rfl

private theorem simulates_argumentDefinitions (levels : Nat) :
    Simulates m (List.map (·.mapLoc m.relocate)) (argumentDefinitions levels)
      (argumentDefinitions levels) :=
  simulates_optionalBlock (simulates_inputValueDefinition levels) .parenOpen .parenClose

private theorem simulates_fieldDefinitionOf (levels : Nat) {colon : Parser Unit}
    {type : Parser TypeRef} (hcolon : Simulates m id colon colon)
    (htype : Simulates m (·.mapLoc m.relocate) type type) :
    Simulates m (·.mapLoc m.relocate) (fieldDefinitionOf levels colon type)
      (fieldDefinitionOf levels colon type) := by
  refine Simulates.description fun d => Simulates.start fun hn => simulates_name.bind fun n => ?_
  refine (simulates_argumentDefinitions levels).bind fun as => hcolon.bind fun _ =>
    htype.bind fun t => ?_
  refine (simulates_directives levels).bind fun ds => ?_
  exact Simulates.located hn fun loc => Simulates.pure rfl

private theorem simulates_fieldDefinition (levels : Nat) :
    Simulates m (·.mapLoc m.relocate) (fieldDefinition levels) (fieldDefinition levels) :=
  simulates_fieldDefinitionOf levels ((simulates_expect .colon).withHint .fieldColon)
    (simulates_fieldType levels)

private theorem simulates_mutationFieldDefinition (levels : Nat) :
    Simulates m (·.mapLoc m.relocate) (mutationFieldDefinition levels)
      (mutationFieldDefinition levels) :=
  simulates_fieldDefinitionOf levels (simulates_expect .colon) (simulates_mutationFieldType levels)

private theorem simulates_queryFieldDefinition (levels : Nat) :
    Simulates m (·.mapLoc m.relocate) (queryFieldDefinition levels) (queryFieldDefinition levels) :=
  simulates_fieldDefinitionOf levels (simulates_expect .colon) (simulates_plainType levels)

private theorem simulates_enumValueDefinition (levels : Nat) :
    Simulates m (·.mapLoc m.relocate) (enumValueDefinition levels)
      (enumValueDefinition levels) := by
  refine Simulates.description fun d => Simulates.start fun hn => simulates_name.bind fun n => ?_
  refine (simulates_directives levels).bind fun ds => ?_
  exact Simulates.located hn fun loc => Simulates.pure rfl

private theorem simulates_scalarTypeDefinition (levels : Nat) (d : Option String) :
    Simulates m (·.mapLoc m.relocate) (scalarTypeDefinition levels d)
      (scalarTypeDefinition levels d) := by
  refine Simulates.start fun hn => (simulates_keyword (by decide)).bind fun _ =>
    simulates_name.bind fun n => ?_
  refine (simulates_directives levels).bind fun ds => ?_
  exact Simulates.located hn fun loc => Simulates.pure rfl

private theorem simulates_interfaces :
    Simulates m (List.map (·.mapLoc m.relocate)) interfaces interfaces := by
  refine Simulates.token fun t => Simulates.ite ?_ (Simulates.pure rfl)
  refine simulates_advance.bind fun _ => simulates_namedType.bind fun t => ?_
  exact (simulates_many simulates_namedType Token.isName).bind fun ts => Simulates.pure rfl

private theorem simulates_objectTypeDefinition (levels : Nat) (d : Option String) :
    Simulates m (·.mapLoc m.relocate) (objectTypeDefinition levels d)
      (objectTypeDefinition levels d) := by
  refine Simulates.start fun hn => (simulates_keyword (by decide)).bind fun _ =>
    simulates_name.bind fun n => ?_
  refine simulates_interfaces.bind fun ts => (simulates_directives levels).bind fun ds => ?_
  refine (simulates_block (simulates_fieldDefinition levels) .braceOpen .braceClose).bind ?_
  intro fs
  exact Simulates.located hn fun loc => Simulates.pure rfl

private theorem simulates_interfaceTypeDefinition (levels : Nat) (d : Option String) :
    Simulates m (·.mapLoc m.relocate) (interfaceTypeDefinition levels d)
      (interfaceTypeDefinition levels d) := by
  refine Simulates.start fun hn => (simulates_keyword (by decide)).bind fun _ =>
    simulates_name.bind fun n => ?_
  refine (simulates_directives levels).bind fun ds => ?_
  refine (simulates_block (simulates_fieldDefinition levels) .braceOpen .braceClose).bind ?_
  intro fs
  exact Simulates.located hn fun loc => Simulates.pure rfl

private theorem simulates_unionTypeDefinition (levels : Nat) (d : Option String) :
    Simulates m (·.mapLoc m.relocate) (unionTypeDefinition levels d)
      (unionTypeDefinition levels d) := by
  refine Simulates.start fun hn => (simulates_keyword (by decide)).bind fun _ =>
    simulates_name.bind fun n => ?_
  refine (simulates_directives levels).bind fun ds => (simulates_expect .equals).bind fun _ => ?_
  refine (simulates_separatedBy simulates_namedType .pipe).bind fun ts => ?_
  exact Simulates.located hn fun loc => Simulates.pure rfl

private theorem simulates_enumTypeDefinition (levels : Nat) (d : Option String) :
    Simulates m (·.mapLoc m.relocate) (enumTypeDefinition levels d)
      (enumTypeDefinition levels d) := by
  refine Simulates.start fun hn => (simulates_keyword (by decide)).bind fun _ =>
    simulates_name.bind fun n => ?_
  refine (simulates_directives levels).bind fun ds => ?_
  refine (simulates_block1 (simulates_enumValueDefinition levels) .braceOpen .braceClose).bind
    fun vs => ?_
  exact Simulates.located hn fun loc => Simulates.pure rfl

private theorem simulates_inputObjectTypeDefinition (levels : Nat) (d : Option String) :
    Simulates m (·.mapLoc m.relocate) (inputObjectTypeDefinition levels d)
      (inputObjectTypeDefinition levels d) := by
  refine Simulates.start fun hn => (simulates_keyword (by decide)).bind fun _ =>
    simulates_name.bind fun n => ?_
  refine (simulates_directives levels).bind fun ds => ?_
  refine (simulates_block (simulates_inputValueDefinition levels) .braceOpen .braceClose).bind
    fun fs => ?_
  exact Simulates.located hn fun loc => Simulates.pure rfl

private theorem simulates_typeExtensionDefinition (levels : Nat) (d : Option String) :
    Simulates m (·.mapLoc m.relocate) (typeExtensionDefinition levels d)
      (typeExtensionDefinition levels d) := by
  refine Simulates.start fun hn => (simulates_keyword (by decide)).bind fun _ => ?_
  refine (simulates_objectTypeDefinition levels none).bind fun o => ?_
  exact Simulates.located hn fun loc => Simulates.pure rfl

private theorem simulates_directiveDefinition (levels : Nat) (d : Option String) :
    Simulates m (·.mapLoc m.relocate) (directiveDefinition levels d)
      (directiveDefinition levels d) := by
  refine Simulates.start fun hn => (simulates_keyword (by decide)).bind fun _ => ?_
  refine (simulates_expect .atSign).bind fun _ => simulates_name.bind fun n => ?_
  refine (simulates_argumentDefinitions levels).bind fun as =>
    (simulates_keyword (by decide)).bind fun _ => ?_
  refine (simulates_separatedBy simulates_name .pipe).bind fun ns => ?_
  exact Simulates.located hn fun loc => Simulates.pure rfl

section Operations

variable {fields : Parser (List FieldDefinition)}
  (h : Simulates m (List.map (·.mapLoc m.relocate)) fields fields)

include h

private theorem simulates_operationResult (levels : Nat) :
    Simulates m (Prod.map (List.map (·.mapLoc m.relocate)) (·.mapLoc m.relocate))
      (operationResult levels fields) (operationResult levels fields) := by
  refine (simulates_skip .colon).bind fun b => Simulates.ite ?_ ?_
  · refine (simulates_plainType levels).bind fun t =>
      (simulates_directives levels).bind fun ds => ?_
    exact Simulates.pure rfl
  · exact (simulates_directives levels).bind fun ds => h.bind fun fs => Simulates.pure rfl

private theorem simulates_operationDefinition {word : String} (hword : IsName word) (levels : Nat)
    (d : Option String) :
    Simulates m (·.mapLoc m.relocate) (operationDefinition word levels fields d)
      (operationDefinition word levels fields d) := by
  refine Simulates.start fun hn => (simulates_keyword hword).bind fun _ =>
    simulates_name.bind fun n => ?_
  refine (simulates_argumentDefinitions levels).bind fun as => ?_
  refine (simulates_operationResult h levels).bind fun r => ?_
  exact Simulates.located hn fun loc => Simulates.pure rfl

end Operations

private theorem simulates_mutationDefinition (levels : Nat) (d : Option String) :
    Simulates m (·.mapLoc m.relocate) (mutationDefinition levels d) (mutationDefinition levels d) :=
  simulates_operationDefinition (simulates_block (simulates_mutationFieldDefinition levels) _ _)
    (by decide) levels d

private theorem simulates_queryDefinition (levels : Nat) (d : Option String) :
    Simulates m (·.mapLoc m.relocate) (queryDefinition levels d) (queryDefinition levels d) :=
  simulates_operationDefinition (simulates_block1 (simulates_queryFieldDefinition levels) _ _)
    (by decide) levels d

private theorem simulates_filterCondition (levels : Nat) :
    Simulates m (·.mapLoc m.relocate) (filterCondition levels) (filterCondition levels) := by
  refine Simulates.start fun hn => (simulates_enumValueDefinition levels).bind fun k => ?_
  refine (simulates_expect .colon).bind fun _ =>
    (simulates_argumentDefinitions levels).bind fun as => ?_
  refine (simulates_objectValue levels).bind fun o => ?_
  exact Simulates.located hn fun loc => Simulates.pure rfl

private theorem simulates_filterDefinition (levels : Nat) (d : Option String) :
    Simulates m (·.mapLoc m.relocate) (filterDefinition levels d) (filterDefinition levels d) := by
  refine Simulates.start fun hn => (simulates_keyword (by decide)).bind fun _ => ?_
  refine (simulates_keyword (by decide)).bind fun _ =>
    (simulates_targetType levels).bind fun t => ?_
  refine (simulates_block (simulates_filterCondition levels) .braceOpen .braceClose).bind ?_
  intro cs
  exact Simulates.located hn fun loc => Simulates.pure rfl

private theorem simulates_orderObjects (levels : Nat) :
    Simulates m (List.map (·.mapLoc m.relocate)) (orderObjects levels) (orderObjects levels) := by
  refine Simulates.peek .bracketOpen fun b => Simulates.ite ?_ ?_
  · exact simulates_block1 (simulates_objectValue levels) .bracketOpen .bracketClose
  · exact (simulates_objectValue levels).bind fun o => Simulates.pure rfl

private theorem simulates_orderExpression (levels : Nat) :
    Simulates m (·.mapLoc m.relocate) (orderExpression levels) (orderExpression levels) := by
  refine Simulates.start fun hn => (simulates_enumValueDefinition levels).bind fun k => ?_
  refine (simulates_expect .colon).bind fun _ => (simulates_orderObjects levels).bind fun os => ?_
  exact Simulates.located hn fun loc => Simulates.pure rfl

private theorem simulates_orderDefinition (levels : Nat) (d : Option String) :
    Simulates m (·.mapLoc m.relocate) (orderDefinition levels d) (orderDefinition levels d) := by
  refine Simulates.start fun hn => (simulates_keyword (by decide)).bind fun _ => ?_
  refine (simulates_keyword (by decide)).bind fun _ =>
    (simulates_targetType levels).bind fun t => ?_
  refine (simulates_block (simulates_orderExpression levels) .braceOpen .braceClose).bind ?_
  intro es
  exact Simulates.located hn fun loc => Simulates.pure rfl

private theorem simulates_definition (levels : Nat) :
    Simulates m (·.mapLoc m.relocate) (definition levels) (definition levels) := by
  refine Simulates.description fun d => Simulates.token fun t => ?_
  split
  · exact (simulates_scalarTypeDefinition levels d).map fun _ => rfl
  · exact (simulates_objectTypeDefinition levels d).map fun _ => rfl
  · exact (simulates_interfaceTypeDefinition levels d).map fun _ => rfl
  · exact (simulates_unionTypeDefinition levels d).map fun _ => rfl
  · exact (simulates_enumTypeDefinition levels d).map fun _ => rfl
  · exact (simulates_inputObjectTypeDefinition levels d).map fun _ => rfl
  · exact (simulates_typeExtensionDefinition levels d).map fun _ => rfl
  · exact (simulates_directiveDefinition levels d).map fun _ => rfl
  · exact (simulates_mutationDefinition levels d).map fun _ => rfl
  · exact (simulates_queryDefinition levels d).map fun _ => rfl
  · exact (simulates_filterDefinition levels d).map fun _ => rfl
  · exact (simulates_orderDefinition levels d).map fun _ => rfl
  · exact (simulates_unexpected _).withHint .definitionKeyword
  · exact simulates_unexpected _

private theorem simulates_definitions (levels count : Nat) :
    Simulates m (List.map (·.mapLoc m.relocate)) (definitions levels count)
      (definitions levels count) := by
  induction count with
  | zero => exact simulates_unexpected _
  | succ count ih =>
    refine (simulates_definition levels).bind fun d => Simulates.token fun t => Simulates.ite ?_ ?_
    · exact simulates_advance.bind fun _ => Simulates.pure rfl
    · exact ih.bind fun ds => Simulates.pure rfl

/-- Parses of whole documents keep in step. -/
theorem simulates_document : Simulates m (·.mapLoc m.relocate) document document := by
  refine Simulates.setting ?_
  rw [m.maxDepth]
  refine Simulates.start fun hn => Simulates.remaining fun count => ?_
  refine (simulates_definitions m.source.maxDepth count).bind fun ds => ?_
  exact Simulates.located hn fun loc => Simulates.pure rfl

/-- Parses of whole values keep in step. -/
theorem simulates_wholeValue : Simulates m (·.mapLoc m.relocate) wholeValue wholeValue := by
  refine Simulates.setting ?_
  rw [m.maxDepth]
  refine (simulates_value false m.source.maxDepth).bind fun v => ?_
  exact simulates_endOfInput.bind fun _ => Simulates.pure rfl

end SchemaLang.Parser

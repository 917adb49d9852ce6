import SchemaLang.Proofs.Prefixes.Type

/-!
# Parses of definitions that begin alike

Every parser of a definition keeps to the same way up to the lexemes about which nothing is known,
whatever follows there, if the limit it is given is no narrower.
-/

namespace SchemaLang.Parser

variable {m : Lockstep} {levels levels' : Nat} (h : levels ≤ levels')

include h

theorem Follows.inputValueDefinition :
    Follows m (inputValueDefinition levels) (inputValueDefinition levels') := by
  refine description fun d => start fun _ _ => name.bind fun n => (expect .colon).bind fun _ => ?_
  refine (plainType h).bind fun t => (skip .equals).bind fun b => ite ?_ ?_
  · exact (map (value true h) some).bind fun v => (directives h).bind fun ds => located (pure _)
  · exact (pure none).bind fun v => (directives h).bind fun ds => located (pure _)

omit h in
private theorem isProductive_inputValueDefinition (levels : Nat) :
    IsProductive (inputValueDefinition levels) :=
  (yields_inputValueDefinition levels).isProductive (Q := fun _ => True) fun _ _ => trivial

theorem Follows.argumentDefinitions :
    Follows m (argumentDefinitions levels) (argumentDefinitions levels') :=
  optionalBlock (inputValueDefinition h) (isProductive_inputValueDefinition _)
    (isProductive_inputValueDefinition _) _ _

theorem Follows.fieldDefinitionOf {colon : Parser Unit} {type type' : Parser TypeRef}
    (hcolon : Follows m colon colon) (htype : Follows m type type') :
    Follows m (fieldDefinitionOf levels colon type) (fieldDefinitionOf levels' colon type') := by
  refine description fun d => start fun _ _ => name.bind fun n =>
    (argumentDefinitions h).bind fun as => ?_
  exact hcolon.bind fun _ => htype.bind fun t => (directives h).bind fun ds => located (pure _)

theorem Follows.fieldDefinition : Follows m (fieldDefinition levels) (fieldDefinition levels') :=
  fieldDefinitionOf h ((expect .colon).withHint .fieldColon) (fieldType h)

theorem Follows.mutationFieldDefinition :
    Follows m (mutationFieldDefinition levels) (mutationFieldDefinition levels') :=
  fieldDefinitionOf h (expect .colon) (mutationFieldType h)

theorem Follows.queryFieldDefinition :
    Follows m (queryFieldDefinition levels) (queryFieldDefinition levels') :=
  fieldDefinitionOf h (expect .colon) (plainType h)

theorem Follows.enumValueDefinition :
    Follows m (enumValueDefinition levels) (enumValueDefinition levels') :=
  description fun _ => start fun _ _ => name.bind fun _ => (directives h).bind fun _ =>
    located (pure _)

theorem Follows.scalarTypeDefinition (d : Option String) :
    Follows m (scalarTypeDefinition levels d) (scalarTypeDefinition levels' d) := by
  refine start fun _ _ => (keyword "scalar").bind fun _ => name.bind fun n => ?_
  exact (directives h).bind fun ds => located (pure _)

omit h in
theorem Follows.interfaces : Follows m interfaces interfaces := by
  refine token fun t => ite (advance.bind fun _ => namedType.bind fun t => ?_) (pure [])
  exact (many namedType isProductive_namedType isProductive_namedType _).bind fun ts =>
    pure (t :: ts)

/-- The fields of an object or an interface. -/
theorem Follows.fields :
    Follows m (Parser.block .braceOpen .braceClose (Parser.fieldDefinition levels))
      (Parser.block .braceOpen .braceClose (Parser.fieldDefinition levels')) := by
  have productive (n : Nat) : IsProductive (Parser.fieldDefinition n) :=
    (yields_fieldDefinition n).isProductive (Q := fun _ => True) fun _ _ => trivial
  exact block (fieldDefinition h) (productive levels) (productive levels') .braceOpen .braceClose

theorem Follows.objectTypeDefinition (d : Option String) :
    Follows m (objectTypeDefinition levels d) (objectTypeDefinition levels' d) := by
  refine start fun _ _ => (keyword "type").bind fun _ => name.bind fun n =>
    interfaces.bind fun is => ?_
  exact (directives h).bind fun ds => (fields h).bind fun fs => located (pure _)

theorem Follows.interfaceTypeDefinition (d : Option String) :
    Follows m (interfaceTypeDefinition levels d) (interfaceTypeDefinition levels' d) := by
  refine start fun _ _ => (keyword "interface").bind fun _ => name.bind fun n => ?_
  exact (directives h).bind fun ds => (fields h).bind fun fs => located (pure _)

theorem Follows.unionTypeDefinition (d : Option String) :
    Follows m (unionTypeDefinition levels d) (unionTypeDefinition levels' d) := by
  refine start fun _ _ => (keyword "union").bind fun _ => name.bind fun n =>
    (directives h).bind fun ds => ?_
  refine (expect .equals).bind fun _ => ?_
  exact (separatedBy namedType isProductive_namedType isProductive_namedType .pipe).bind fun ts =>
    located (pure _)

theorem Follows.enumTypeDefinition (d : Option String) :
    Follows m (enumTypeDefinition levels d) (enumTypeDefinition levels' d) := by
  have productive (n : Nat) : IsProductive (Parser.enumValueDefinition n) :=
    (yields_enumValueDefinition n).isProductive (Q := fun _ => True) fun _ _ => trivial
  refine start fun _ _ => (keyword "enum").bind fun _ => name.bind fun n =>
    (directives h).bind fun ds => ?_
  exact (block1 (enumValueDefinition h) (productive _) (productive _) .braceOpen .braceClose).bind
      fun vs =>
    located (pure _)

theorem Follows.inputObjectTypeDefinition (d : Option String) :
    Follows m (inputObjectTypeDefinition levels d) (inputObjectTypeDefinition levels' d) := by
  refine start fun _ _ => (keyword "input").bind fun _ => name.bind fun n =>
    (directives h).bind fun ds => ?_
  exact (block (inputValueDefinition h) (isProductive_inputValueDefinition _)
    (isProductive_inputValueDefinition _) .braceOpen .braceClose).bind fun fs => located (pure _)

theorem Follows.typeExtensionDefinition (d : Option String) :
    Follows m (typeExtensionDefinition levels d) (typeExtensionDefinition levels' d) :=
  start fun _ _ => (keyword "extend").bind fun _ => (objectTypeDefinition h none).bind fun _ =>
    located (pure _)

theorem Follows.directiveDefinition (d : Option String) :
    Follows m (directiveDefinition levels d) (directiveDefinition levels' d) := by
  have productive : IsProductive Parser.name :=
    yields_name.isProductive (Q := fun _ => True) fun _ _ => trivial
  refine start fun _ _ => (keyword "directive").bind fun _ => (expect .atSign).bind fun _ =>
    name.bind fun n => ?_
  refine (argumentDefinitions h).bind fun as => (keyword "on").bind fun _ => ?_
  exact (separatedBy name productive productive .pipe).bind fun ns => located (pure _)

section Operations

variable {fields fields' : Parser (List FieldDefinition)} (hfields : Follows m fields fields')

include hfields

theorem Follows.operationResult :
    Follows m (operationResult levels fields) (operationResult levels' fields') := by
  refine (skip .colon).bind fun b => ite ?_ ?_
  · exact (plainType h).bind fun t => (directives h).bind fun ds => pure _
  · exact (directives h).bind fun ds => hfields.bind fun fs => pure _

theorem Follows.operationDefinition (word : String) (d : Option String) :
    Follows m (operationDefinition word levels fields d)
      (operationDefinition word levels' fields' d) := by
  refine start fun _ _ => (keyword word).bind fun _ => name.bind fun n =>
    (argumentDefinitions h).bind fun as => ?_
  exact (operationResult h hfields).bind fun r => located (pure _)

end Operations

theorem Follows.mutationDefinition (d : Option String) :
    Follows m (mutationDefinition levels d) (mutationDefinition levels' d) := by
  have productive (n : Nat) : IsProductive (Parser.mutationFieldDefinition n) :=
    (yields_mutationFieldDefinition n).isProductive (Q := fun _ => True) fun _ _ => trivial
  exact operationDefinition h
    (block (mutationFieldDefinition h) (productive _) (productive _) _ _) "mutation" d

theorem Follows.queryDefinition (d : Option String) :
    Follows m (queryDefinition levels d) (queryDefinition levels' d) := by
  have productive (n : Nat) : IsProductive (Parser.queryFieldDefinition n) :=
    (yields_queryFieldDefinition n).isProductive (Q := fun _ => True) fun _ _ => trivial
  exact operationDefinition h
    (block1 (queryFieldDefinition h) (productive _) (productive _) _ _) "query" d

theorem Follows.filterDefinition (d : Option String) :
    Follows m (filterDefinition levels d) (filterDefinition levels' d) := by
  have condition : Follows m (filterCondition levels) (filterCondition levels') := by
    refine start fun _ _ => (enumValueDefinition h).bind fun k => (expect .colon).bind fun _ => ?_
    exact (argumentDefinitions h).bind fun as => (objectValue h).bind fun o => located (pure _)
  have productive (n : Nat) : IsProductive (filterCondition n) :=
    (yields_filterCondition n).isProductive (Q := fun _ => True) fun _ _ => trivial
  refine start fun _ _ => (keyword "filter").bind fun _ => (keyword "on").bind fun _ => ?_
  refine (targetType h).bind fun t => ?_
  exact (block condition (productive _) (productive _) .braceOpen .braceClose).bind fun cs =>
    located (pure _)

theorem Follows.orderObjects : Follows m (orderObjects levels) (orderObjects levels') := by
  have productive (n : Nat) : IsProductive (Parser.objectValue n) :=
    (yields_objectValue n).isProductive fun o _ => o.toValue.starts_form
  refine peek .bracketOpen fun b => ite ?_ ((objectValue h).bind fun o => pure [o])
  exact block1 (objectValue h) (productive _) (productive _) .bracketOpen .bracketClose

theorem Follows.orderDefinition (d : Option String) :
    Follows m (orderDefinition levels d) (orderDefinition levels' d) := by
  have expression : Follows m (orderExpression levels) (orderExpression levels') := by
    refine start fun _ _ => (enumValueDefinition h).bind fun k => (expect .colon).bind fun _ => ?_
    exact (orderObjects h).bind fun os => located (pure _)
  have productive (n : Nat) : IsProductive (orderExpression n) :=
    (yields_orderExpression n).isProductive (Q := fun _ => True) fun _ _ => trivial
  refine start fun _ _ => (keyword "order").bind fun _ => (keyword "on").bind fun _ => ?_
  refine (targetType h).bind fun t => ?_
  exact (block expression (productive _) (productive _) .braceOpen .braceClose).bind fun es =>
    located (pure _)

theorem Follows.definition : Follows m (definition levels) (definition levels') := by
  refine description fun d => token fun t => ?_
  split
  · exact map (scalarTypeDefinition h d) _
  · exact map (objectTypeDefinition h d) _
  · exact map (interfaceTypeDefinition h d) _
  · exact map (unionTypeDefinition h d) _
  · exact map (enumTypeDefinition h d) _
  · exact map (inputObjectTypeDefinition h d) _
  · exact map (typeExtensionDefinition h d) _
  · exact map (directiveDefinition h d) _
  · exact map (mutationDefinition h d) _
  · exact map (queryDefinition h d) _
  · exact map (filterDefinition h d) _
  · exact map (orderDefinition h d) _
  · exact unexpected.withHint .definitionKeyword
  · exact unexpected

private theorem advances_definitions (n : Nat) (c : Cursor) :
    m.Advances c (definitions levels n m.source c) := by
  induction n generalizing c with
  | zero => exact Follows.unexpected.advances c
  | succ n ih =>
    refine advances_bind ((Follows.definition h).advances c) fun d e => ?_
    rw [token_bind]
    split
    · exact advances_bind (Follows.advance.advances e) fun _ => (Follows.pure _).advances
    · exact advances_bind (ih e) fun _ => (Follows.pure _).advances

private theorem outcomes_definitions {n n' : Nat} {c c' : Cursor} (hc : m.Together c c')
    (hn : c.rest.length < n) (hn' : c'.rest.length < n') :
    m.Outcomes (definitions levels n m.source c) (definitions levels' n' m.target c') := by
  have productive (k : Nat) : IsProductive (definition k) :=
    (yields_definition k).isProductive (Q := fun _ => True) fun d _ =>
      (starts_definition d).imp fun _ _ => trivial
  induction n generalizing n' c c' with
  | zero => exact absurd hn (Nat.not_lt_zero _)
  | succ n ih =>
    obtain ⟨n', rfl⟩ := Nat.exists_eq_add_one_of_ne_zero (Nat.ne_zero_of_lt hn')
    refine outcomes_bind ((Follows.definition h).outcomes hc) (fun d e => ?_) fun hd hd' he => ?_
    · rw [token_bind]
      split
      · exact advances_bind (Follows.advance.advances e) fun _ => (Follows.pure _).advances
      · exact advances_bind (advances_definitions h n e) fun _ => (Follows.pure _).advances
    · have hlt := productive levels hc.sound hd
      have hlt' := productive levels' hc.sound' hd'
      rw [token_bind, token_bind, he.matches.token]
      split
      · exact (Follows.advance.bind fun _ => Follows.pure _).outcomes he
      · exact outcomes_bind (ih he (by omega) (by omega)) (fun _ => (Follows.pure _).advances)
          fun _ _ hf => .answers hf

omit h in
/-- Parses of whole documents keep to the same way. -/
theorem Follows.document : Follows m document document := by
  have definitions : Follows m (remaining >>= definitions m.source.maxDepth)
      (remaining >>= definitions m.target.maxDepth) :=
    ⟨fun c => advances_definitions m.maxDepth _ c,
      fun _ _ hc => outcomes_definitions m.maxDepth hc (Nat.lt_succ_self _) (Nat.lt_succ_self _)⟩
  exact setting (start fun _ _ => definitions.bind fun ds => located (pure _))

omit h in
/-- Parses of whole values keep to the same way. -/
theorem Follows.wholeValue : Follows m wholeValue wholeValue :=
  setting ((value false m.maxDepth).bind fun v => endOfInput.bind fun _ => pure v)

end SchemaLang.Parser

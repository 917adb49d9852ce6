import SchemaLang.Parser.TypeRef
import SchemaLang.Parser.Value

/-!
# Parsing definitions

A definition begins with a keyword that says which it is. The description in front of a
definition, a field, an argument, an enum value or a key belongs to it; in front of anything else
it is passed over. Each parser here is given the number of levels that values and list types
within may be nested.
-/

namespace SchemaLang.Parser

/-- `name: Type = default @directives`. -/
def inputValueDefinition (levels : Nat) : Parser InputValueDefinition := do
  let description ← description
  let start ← start
  let n ← name
  expect .colon
  let t ← plainType levels
  let defaultValue ← if ← skip .equals then some <$> value true levels else pure none
  let ds ← directives levels
  return ⟨description, n, t, defaultValue, ds, ← located start⟩

/-- Arguments in parentheses, or nothing. -/
def argumentDefinitions (levels : Nat) : Parser (List InputValueDefinition) :=
  optionalBlock .parenOpen .parenClose (inputValueDefinition levels)

/-- `name(arguments): Type @directives`, where `colon` reads the colon and `type` the type. -/
def fieldDefinitionOf (levels : Nat) (colon : Parser Unit) (type : Parser TypeRef) :
    Parser FieldDefinition := do
  let description ← description
  let start ← start
  let n ← name
  let arguments ← argumentDefinitions levels
  colon
  let t ← type
  let ds ← directives levels
  return ⟨description, n, arguments, t, ds, ← located start⟩

/-- A field of an object or an interface. -/
def fieldDefinition (levels : Nat) : Parser FieldDefinition :=
  fieldDefinitionOf levels (withHint .fieldColon (expect .colon)) (fieldType levels)

/-- A field of a mutation's result. -/
def mutationFieldDefinition (levels : Nat) : Parser FieldDefinition :=
  fieldDefinitionOf levels (expect .colon) (mutationFieldType levels)

/-- A field of a query's result. -/
def queryFieldDefinition (levels : Nat) : Parser FieldDefinition :=
  fieldDefinitionOf levels (expect .colon) (plainType levels)

/-- `NAME @directives`. -/
def enumValueDefinition (levels : Nat) : Parser EnumValueDefinition := do
  let description ← description
  let start ← start
  let n ← name
  let ds ← directives levels
  return ⟨description, n, ds, ← located start⟩

/-- `scalar Name @directives`. -/
def scalarTypeDefinition (levels : Nat) (description : Option String) :
    Parser ScalarTypeDefinition := do
  let start ← start
  keyword "scalar"
  let n ← name
  let ds ← directives levels
  return ⟨description, n, ds, ← located start⟩

/-- `implements` and one or more names, or nothing. -/
def interfaces : Parser (List NamedType) := do
  if (← token) = .name "implements" then
    advance
    let t ← namedType
    return t :: (← many Token.isName namedType)
  return []

/-- `type Name implements A B @directives` and a block of fields. -/
def objectTypeDefinition (levels : Nat) (description : Option String) :
    Parser ObjectTypeDefinition := do
  let start ← start
  keyword "type"
  let n ← name
  let is ← interfaces
  let ds ← directives levels
  let fields ← block .braceOpen .braceClose (fieldDefinition levels)
  return ⟨description, n, is, ds, fields, ← located start⟩

/-- `interface Name @directives` and a block of fields. -/
def interfaceTypeDefinition (levels : Nat) (description : Option String) :
    Parser InterfaceTypeDefinition := do
  let start ← start
  keyword "interface"
  let n ← name
  let ds ← directives levels
  let fields ← block .braceOpen .braceClose (fieldDefinition levels)
  return ⟨description, n, ds, fields, ← located start⟩

/-- `union Name @directives = A | B`. -/
def unionTypeDefinition (levels : Nat) (description : Option String) :
    Parser UnionTypeDefinition := do
  let start ← start
  keyword "union"
  let n ← name
  let ds ← directives levels
  expect .equals
  let types ← separatedBy .pipe namedType
  return ⟨description, n, ds, types, ← located start⟩

/-- `enum Name @directives` and a block of one or more values. -/
def enumTypeDefinition (levels : Nat) (description : Option String) :
    Parser EnumTypeDefinition := do
  let start ← start
  keyword "enum"
  let n ← name
  let ds ← directives levels
  let values ← block1 .braceOpen .braceClose (enumValueDefinition levels)
  return ⟨description, n, ds, values, ← located start⟩

/-- `input Name @directives` and a block of input fields. -/
def inputObjectTypeDefinition (levels : Nat) (description : Option String) :
    Parser InputObjectTypeDefinition := do
  let start ← start
  keyword "input"
  let n ← name
  let ds ← directives levels
  let fields ← block .braceOpen .braceClose (inputValueDefinition levels)
  return ⟨description, n, ds, fields, ← located start⟩

/-- `extend` and the definition of an object type, which has no description of its own. -/
def typeExtensionDefinition (levels : Nat) (description : Option String) :
    Parser TypeExtensionDefinition := do
  let start ← start
  keyword "extend"
  let definition ← objectTypeDefinition levels none
  return ⟨description, definition, ← located start⟩

/-- `directive @name(arguments) on LOCATION | LOCATION`. -/
def directiveDefinition (levels : Nat) (description : Option String) :
    Parser DirectiveDefinition := do
  let start ← start
  keyword "directive"
  expect .atSign
  let n ← name
  let arguments ← argumentDefinitions levels
  keyword "on"
  let locations ← separatedBy .pipe name
  return ⟨description, n, arguments, locations, ← located start⟩

/-- The directives and the result of a mutation or a query: `: Type @directives`, or `@directives`
and the fields that `fields` reads. -/
def operationResult (levels : Nat) (fields : Parser (List FieldDefinition)) :
    Parser (List Directive × OperationResult) := do
  if ← skip .colon then
    let t ← plainType levels
    let ds ← directives levels
    return (ds, .type t)
  else
    let ds ← directives levels
    return (ds, .fields (← fields))

/-- A mutation or a query: its keyword, name, arguments and result. -/
def operationDefinition (word : String) (levels : Nat) (fields : Parser (List FieldDefinition))
    (description : Option String) : Parser OperationDefinition := do
  let start ← start
  keyword word
  let n ← name
  let arguments ← argumentDefinitions levels
  let (ds, result) ← operationResult levels fields
  return ⟨description, n, arguments, ds, result, ← located start⟩

/-- A mutation; its block of fields may be empty. -/
def mutationDefinition (levels : Nat) (description : Option String) : Parser OperationDefinition :=
  operationDefinition "mutation" levels
    (block .braceOpen .braceClose (mutationFieldDefinition levels)) description

/-- A query; its block has one or more fields. -/
def queryDefinition (levels : Nat) (description : Option String) : Parser OperationDefinition :=
  operationDefinition "query" levels
    (block1 .braceOpen .braceClose (queryFieldDefinition levels)) description

/-- `KEY: (arguments)` and an object. -/
def filterCondition (levels : Nat) : Parser FilterCondition := do
  let start ← start
  let key ← enumValueDefinition levels
  expect .colon
  let arguments ← argumentDefinitions levels
  let condition ← objectValue levels
  return ⟨key, arguments, condition, ← located start⟩

/-- `filter on Target` and a block of conditions. -/
def filterDefinition (levels : Nat) (description : Option String) : Parser FilterDefinition := do
  let start ← start
  keyword "filter"
  keyword "on"
  let t ← targetType levels
  let conditions ← block .braceOpen .braceClose (filterCondition levels)
  return ⟨description, t, conditions, ← located start⟩

/-- An object, or a list of one or more. The brackets of that list are no level of nesting. -/
def orderObjects (levels : Nat) : Parser (List ObjectValue) := do
  if ← peek .bracketOpen then block1 .bracketOpen .bracketClose (objectValue levels)
  else return [← objectValue levels]

/-- `KEY:` and what is ordered by. -/
def orderExpression (levels : Nat) : Parser OrderExpression := do
  let start ← start
  let key ← enumValueDefinition levels
  expect .colon
  let expression ← orderObjects levels
  return ⟨key, expression, ← located start⟩

/-- `order on Target` and a block of expressions. -/
def orderDefinition (levels : Nat) (description : Option String) : Parser OrderDefinition := do
  let start ← start
  keyword "order"
  keyword "on"
  let t ← targetType levels
  let expressions ← block .braceOpen .braceClose (orderExpression levels)
  return ⟨description, t, expressions, ← located start⟩

/-- A definition with the description in front of it. -/
def definition (levels : Nat) : Parser Definition := do
  let description ← description
  match ← token with
  | .name "scalar" => .scalar <$> scalarTypeDefinition levels description
  | .name "type" => .object <$> objectTypeDefinition levels description
  | .name "interface" => .interface <$> interfaceTypeDefinition levels description
  | .name "union" => .union <$> unionTypeDefinition levels description
  | .name "enum" => .enum <$> enumTypeDefinition levels description
  | .name "input" => .inputObject <$> inputObjectTypeDefinition levels description
  | .name "extend" => .typeExtension <$> typeExtensionDefinition levels description
  | .name "directive" => .directive <$> directiveDefinition levels description
  | .name "mutation" => .mutation <$> mutationDefinition levels description
  | .name "query" => .query <$> queryDefinition levels description
  | .name "filter" => .filter <$> filterDefinition levels description
  | .name "order" => .order <$> orderDefinition levels description
  | .name _ => withHint .definitionKeyword unexpected
  | _ => unexpected

/-- One or more definitions up to the end of the input; there are at most `count` of them. -/
def definitions (levels : Nat) : (count : Nat) → Parser (List Definition)
  | 0 => unexpected
  | count + 1 => do
    let d ← definition levels
    if (← token) = .endOfInput then
      advance
      return [d]
    return d :: (← definitions levels count)

/-- A whole document. It reaches to the very end of the text. -/
def document : Parser Document := do
  let levels := (← setting).maxDepth
  let start ← start
  let ds ← definitions levels (← remaining)
  return ⟨ds, ← located start⟩

/-- A whole text that is one value. Variables may stand in it. -/
def wholeValue : Parser Value := do
  let v ← value false (← setting).maxDepth
  endOfInput
  return v

end SchemaLang.Parser

namespace SchemaLang

/-- The document that a source holds, or its first fault. -/
def parseDocument (source : Source) (options : ParseOptions) : Except SyntaxError Document :=
  Parser.document.run source options

/-- The value that a source holds, or its first fault. -/
def parseValue (source : Source) (options : ParseOptions) : Except SyntaxError Value :=
  Parser.wholeValue.run source options

end SchemaLang

import SchemaLang.Parser.Basic

/-!
# Parsing values

A value is a literal, a variable, a list or an object. Lists and objects may be nested as many
levels as the parser is given; one more is a fault at its opening bracket. In the default of an
argument no variable may stand, at any depth.
-/

namespace SchemaLang.Parser

/-- A variable after its `$`, which is looked at. -/
def variableValue : Parser Value := do
  let start ← start
  expect .dollar
  let n ← name
  return .var n (← located start)

/-- A value without brackets. In a constant one a variable is a fault. -/
def atom (constant : Bool) : Parser Value := do
  let start ← start
  match ← token with
  | .int text =>
    advance
    return .int text (← located start)
  | .float text =>
    advance
    return .float text (← located start)
  | .string text =>
    advance
    return .string text (← located start)
  | .name text =>
    if text = "true" ∨ text = "false" then
      advance
      return .boolean (text = "true") (← located start)
    else if text = "null" then withHint .nullIsNoValue unexpected
    else
      advance
      return .enum text (← located start)
  | .punctuator .dollar =>
    if constant then withHint .variableInDefault unexpected else variableValue
  | _ => unexpected

/-- A list of what `item` reads. -/
def listOf (item : Parser Value) : Parser Value := do
  let start ← start
  let values ← block .bracketOpen .bracketClose item
  return .list values (← located start)

/-- A named member whose value `item` reads. -/
def objectFieldOf (item : Parser Value) : Parser ObjectField := do
  let start ← start
  let n ← name
  expect .colon
  let v ← item
  return ⟨n, v, ← located start⟩

/-- An object whose members have the values that `item` reads. -/
def objectOf (item : Parser Value) : Parser ObjectValue := do
  let start ← start
  let fields ← block .braceOpen .braceClose (objectFieldOf item)
  return ⟨fields, ← located start⟩

/-- A value with lists and objects at most `levels` deep. -/
def value (constant : Bool) : (levels : Nat) → Parser Value
  | 0 => do
    match ← token with
    | .punctuator .bracketOpen => tooDeep
    | .punctuator .braceOpen => tooDeep
    | _ => atom constant
  | levels + 1 => do
    match ← token with
    | .punctuator .bracketOpen => listOf (value constant levels)
    | .punctuator .braceOpen => return (← objectOf (value constant levels)).toValue
    | _ => atom constant

/-- An object at most `levels` deep, itself included. -/
def objectValue : (levels : Nat) → Parser ObjectValue
  | 0 => tooDeep
  | levels + 1 => objectOf (value false levels)

/-- `name: value` in the arguments of a directive. -/
def argument (levels : Nat) : Parser Argument := do
  let start ← start
  let n ← name
  expect .colon
  let v ← value false levels
  return ⟨n, v, ← located start⟩

/-- `@name`, with arguments in parentheses if it has any. -/
def directive (levels : Nat) : Parser Directive := do
  let start ← start
  expect .atSign
  let n ← name
  let arguments ← optionalBlock .parenOpen .parenClose (argument levels)
  return ⟨n, arguments, ← located start⟩

/-- Any number of directives. -/
def directives (levels : Nat) : Parser (List Directive) :=
  many (· = .punctuator .atSign) (directive levels)

end SchemaLang.Parser

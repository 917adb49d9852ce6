import SchemaLang.Ast.TypeRef

/-!
# Values

Literals, variables, lists and objects. Numbers keep the text they were written as, and a
string holds what its escapes stand for. Objects keep their fields in order, with repeated
names if there are any.
-/

namespace SchemaLang

/-- A named member of an object, with values of type `V`. -/
structure ObjectFieldOf (V : Type) where
  name : Name
  value : V
  loc : Option Loc
deriving DecidableEq, Repr

inductive Value where
  | var (name : Name) (loc : Option Loc)
  | int (text : String) (loc : Option Loc)
  | float (text : String) (loc : Option Loc)
  | string (text : String) (loc : Option Loc)
  | boolean (value : Bool) (loc : Option Loc)
  | enum (text : String) (loc : Option Loc)
  | list (values : List Value) (loc : Option Loc)
  | object (fields : List (ObjectFieldOf Value)) (loc : Option Loc)
deriving Repr

/-- A named member of an object. -/
abbrev ObjectField := ObjectFieldOf Value

/-- An object where nothing else may stand. -/
structure ObjectValue where
  fields : List ObjectField
  loc : Option Loc
deriving Repr

namespace Value

def kind : Value → Kind
  | .var .. => .var
  | .int .. => .intValue
  | .float .. => .floatValue
  | .string .. => .stringValue
  | .boolean .. => .booleanValue
  | .enum .. => .enumValue
  | .list .. => .listValue
  | .object .. => .objectValue

/-- The location of the value itself. -/
def loc : Value → Option Loc
  | .var _ l => l
  | .int _ l => l
  | .float _ l => l
  | .string _ l => l
  | .boolean _ l => l
  | .enum _ l => l
  | .list _ l => l
  | .object _ l => l

mutual

/-- Whether two values are the same, locations included. -/
def same : Value → Value → Bool
  | .var n l, .var n' l' => n = n' && l = l'
  | .int s l, .int s' l' => s = s' && l = l'
  | .float s l, .float s' l' => s = s' && l = l'
  | .string s l, .string s' l' => s = s' && l = l'
  | .boolean b l, .boolean b' l' => b = b' && l = l'
  | .enum s l, .enum s' l' => s = s' && l = l'
  | .list vs l, .list vs' l' => sameValues vs vs' && l = l'
  | .object fs l, .object fs' l' => sameFields fs fs' && l = l'
  | _, _ => false

/-- Whether two lists of values are the same. -/
def sameValues : List Value → List Value → Bool
  | [], [] => true
  | v :: vs, v' :: vs' => v.same v' && sameValues vs vs'
  | _, _ => false

/-- Whether two lists of fields are the same. -/
def sameFields : List ObjectField → List ObjectField → Bool
  | [], [] => true
  | ⟨n, v, l⟩ :: fs, ⟨n', v', l'⟩ :: fs' => (n = n' && v.same v' && l = l') && sameFields fs fs'
  | _, _ => false

end

mutual

theorem same_iff : ∀ v w : Value, v.same w = true ↔ v = w
  | .var .., w => by cases w <;> simp [same]
  | .int .., w => by cases w <;> simp [same]
  | .float .., w => by cases w <;> simp [same]
  | .string .., w => by cases w <;> simp [same]
  | .boolean .., w => by cases w <;> simp [same]
  | .enum .., w => by cases w <;> simp [same]
  | .list vs _, w => by cases w <;> simp [same, sameValues_iff vs]
  | .object fs _, w => by cases w <;> simp [same, sameFields_iff fs]

theorem sameValues_iff : ∀ vs ws : List Value, sameValues vs ws = true ↔ vs = ws
  | [], ws => by cases ws <;> simp [sameValues]
  | v :: vs, ws => by cases ws <;> simp [sameValues, same_iff v, sameValues_iff vs]

theorem sameFields_iff : ∀ fs gs : List ObjectField, sameFields fs gs = true ↔ fs = gs
  | [], gs => by cases gs <;> simp [sameFields]
  | ⟨n, v, l⟩ :: fs, gs => by
    cases gs with
    | nil => simp [sameFields]
    | cons g gs =>
      obtain ⟨n', v', l'⟩ := g
      simp [sameFields, same_iff v, sameFields_iff fs, and_assoc]

end

instance : DecidableEq Value := fun v w => decidable_of_iff _ (same_iff v w)

mutual

def mapLoc (f : Loc → Option Loc) : Value → Value
  | .var n l => .var (n.mapLoc f) (l.bind f)
  | .int s l => .int s (l.bind f)
  | .float s l => .float s (l.bind f)
  | .string s l => .string s (l.bind f)
  | .boolean b l => .boolean b (l.bind f)
  | .enum s l => .enum s (l.bind f)
  | .list vs l => .list (mapLocValues f vs) (l.bind f)
  | .object fs l => .object (mapLocFields f fs) (l.bind f)

def mapLocValues (f : Loc → Option Loc) : List Value → List Value
  | [] => []
  | v :: vs => v.mapLoc f :: mapLocValues f vs

def mapLocFields (f : Loc → Option Loc) : List ObjectField → List ObjectField
  | [] => []
  | ⟨n, v, l⟩ :: fs => ⟨n.mapLoc f, v.mapLoc f, l.bind f⟩ :: mapLocFields f fs

end

mutual

/-- How many lists and objects are nested in one another. -/
def nesting : Value → Nat
  | .list vs _ => nestingValues vs + 1
  | .object fs _ => nestingFields fs + 1
  | _ => 0

/-- The deepest nesting among values. -/
def nestingValues : List Value → Nat
  | [] => 0
  | v :: vs => max v.nesting (nestingValues vs)

/-- The deepest nesting among the values of fields. -/
def nestingFields : List ObjectField → Nat
  | [] => 0
  | ⟨_, v, _⟩ :: fs => max v.nesting (nestingFields fs)

end

end Value

deriving instance DecidableEq for ObjectValue

namespace ObjectFieldOf

def mapLoc (f : Loc → Option Loc) (field : ObjectField) : ObjectField :=
  ⟨field.name.mapLoc f, field.value.mapLoc f, field.loc.bind f⟩

end ObjectFieldOf

namespace ObjectValue

/-- The object as a value. -/
def toValue (o : ObjectValue) : Value := .object o.fields o.loc

def mapLoc (f : Loc → Option Loc) (o : ObjectValue) : ObjectValue :=
  ⟨o.fields.map (ObjectFieldOf.mapLoc f), o.loc.bind f⟩

end ObjectValue

/-- The object that a value is. -/
def Value.object? : Value → Option ObjectValue
  | .object fields loc => some ⟨fields, loc⟩
  | _ => none

end SchemaLang

import SchemaLang.Traversal.Walk

/-!
# Variables

Filters and orders are objects with variables in them. Their names are collected by a walk of each
object, every name once, in the order in which they first occur.
-/

namespace SchemaLang.Variables

/-- Adds a name after the others, unless it is among them. -/
def note (names : List String) (name : String) : List String :=
  if name ∈ names then names else names ++ [name]

/-- Notes the name of a variable, and does not go into it. -/
def entered : Callback (List String) := fun n _ names =>
  match n with
  | .value (.var name _) => (.skip, note names name.value)
  | _ => (.skip, names)

/-- Notes the names of the variables that it is walked through. -/
def collector : Visitor (List String) :=
  (VisitorTable.on {} .enter (some .var) entered).visitor

/-- Notes the names of the variables in objects, one object after the other. -/
def noteAll (names : List String) : List ObjectValue → Except VisitError (List String)
  | [] => .ok names
  | o :: os =>
    match (Node.value o.toValue).visit collector names with
    | (.ok _, names) => noteAll names os
    | (.error e, _) => .error e

end SchemaLang.Variables

namespace SchemaLang

/-- The names of the variables in some objects, each once, in the order in which they first
occur. -/
def variableNames (objects : List ObjectValue) : Except VisitError (List String) :=
  Variables.noteAll [] objects

end SchemaLang

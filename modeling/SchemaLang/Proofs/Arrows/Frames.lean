import SchemaLang.Proofs.Arrows.Places

/-!
# The smallest documents with arrows

In each of the places for arrows a type can stand in a document with one definition, and with one
field at most. The tokens of such a document are those of the type between a few others.
-/

namespace SchemaLang

/-- A document around a type, by the names in it. -/
inductive ArrowFrame where
  | object (name field : String)
  | interface (name field : String)
  | mutation (name field : String)
  | filter
  | order
deriving DecidableEq, Repr

namespace ArrowFrame

/-- Where the type stands. -/
def place : ArrowFrame → ArrowPlace
  | .object .. => .field
  | .interface .. => .field
  | .mutation .. => .mutationField
  | .filter => .target
  | .order => .target

/-- What is named has names. -/
def Conforms : ArrowFrame → Prop
  | .object name field => IsName name ∧ IsName field
  | .interface name field => IsName name ∧ IsName field
  | .mutation name field => IsName name ∧ IsName field
  | .filter => True
  | .order => True

/-- The tokens of a block of fields up to the type of the first one. -/
def opening (keyword name field : String) : List Token :=
  [.name keyword, .name name, .punctuator .braceOpen, .name field, .punctuator .colon]

/-- The tokens in front of the type. -/
def front : ArrowFrame → List Token
  | .object name field => opening "type" name field
  | .interface name field => opening "interface" name field
  | .mutation name field => opening "mutation" name field
  | .filter => [.name "filter", .name "on"]
  | .order => [.name "order", .name "on"]

/-- The tokens behind it. -/
def back : ArrowFrame → List Token
  | .object .. => [.punctuator .braceClose]
  | .interface .. => [.punctuator .braceClose]
  | .mutation .. => [.punctuator .braceClose]
  | .filter => [.punctuator .braceOpen, .punctuator .braceClose]
  | .order => [.punctuator .braceOpen, .punctuator .braceClose]

/-- A field with nothing but a name and a type. -/
def fieldOf (name : String) (t : TypeRef) : FieldDefinition := ⟨none, ⟨name, none⟩, [], t, [], none⟩

def definition (t : TypeRef) : ArrowFrame → Definition
  | .object name field => .object ⟨none, ⟨name, none⟩, [], [], [fieldOf field t], none⟩
  | .interface name field => .interface ⟨none, ⟨name, none⟩, [], [fieldOf field t], none⟩
  | .mutation name field => .mutation ⟨none, ⟨name, none⟩, [], [], .fields [fieldOf field t], none⟩
  | .filter => .filter ⟨none, t, [], none⟩
  | .order => .order ⟨none, t, [], none⟩

/-- The document around the type. -/
def document (frame : ArrowFrame) (t : TypeRef) : Document := ⟨[frame.definition t], none⟩

variable {frame : ArrowFrame} {t : TypeRef} {depth : Nat}

theorem tokens_document (frame : ArrowFrame) (t : TypeRef) :
    (frame.document t).form.tokens = frame.front ++ (t.form.tokens ++ frame.back) := by
  cases frame <;>
    simp [document, definition, fieldOf, front, opening, back, Document.form, Definition.form,
      ObjectTypeDefinition.form, ObjectTypeDefinition.formFrom, InterfaceTypeDefinition.form,
      OperationDefinition.form, OperationResult.form, FilterDefinition.form, OrderDefinition.form,
      FieldDefinition.form, InputValueDefinition.argumentForms, Directive.forms, interfaceForms,
      Form.block, Form.optionalBlock, Form.tokens, descriptionTokens]

private theorem conforms_fieldOf {form : TypeRef → Prop} {name : String} (hname : IsName name)
    (h : t.Conforms form depth) : (fieldOf name t).Conforms form depth where
  description := fun _ htext => nomatch htext
  name := hname
  arguments := fun _ ha => absurd ha List.not_mem_nil
  type := h
  directives := fun _ hx => absurd hx List.not_mem_nil

/-- With a type that the place admits the document conforms. -/
theorem Conforms.document (h : frame.Conforms) (admits : frame.place.admits t)
    (nesting : t.nesting ≤ depth) : (frame.document t).Conforms depth := by
  have undescribed : ConformsDescription none := fun _ htext => nomatch htext
  have empty {α : Type} {P : α → Prop} : ∀ x ∈ ([] : List α), P x :=
    fun _ hx => absurd hx List.not_mem_nil
  refine ⟨List.cons_ne_nil _ _, List.forall_mem_singleton.2 ?_⟩
  cases frame with
  | object name field =>
    have field := conforms_fieldOf h.2 ⟨admits, nesting⟩
    exact ⟨undescribed, h.1, empty, empty, List.forall_mem_singleton.2 field⟩
  | interface name field =>
    have field := conforms_fieldOf h.2 ⟨admits, nesting⟩
    exact ⟨undescribed, h.1, empty, List.forall_mem_singleton.2 field⟩
  | mutation name field =>
    have field := conforms_fieldOf h.2 ⟨admits, nesting⟩
    exact ⟨undescribed, h.1, empty, empty, List.forall_mem_singleton.2 field⟩
  | filter => exact ⟨undescribed, ⟨admits, nesting⟩, empty⟩
  | order => exact ⟨undescribed, ⟨admits, nesting⟩, empty⟩

end ArrowFrame

end SchemaLang

import Mathlib.Data.List.Forall2
import SchemaLang.Proofs.Preservation.Kept
import SchemaLang.Proofs.Slices.Anchored
import SchemaLang.Proofs.Traversal.Filling

/-!
# The parts of a node in its form

The form of a node is located where the node is, and the outermost nodes inside are the parts of the
node. They stand in the order in which the node has them, but for a mutation or a query of a type:
its directives stand behind the type, while the node has them in front of its result.
-/

namespace SchemaLang

namespace Form

/-- The forms of the outermost nodes in the form. -/
def parts : Form → List Form
  | token .. => []
  | described .. => []
  | empty => []
  | seq a b => a.parts ++ b.parts
  | located loc a => [located loc a]
  | bracketable a => a.parts

@[simp] theorem parts_empty : empty.parts = [] := rfl

@[simp] theorem parts_punctuator {p : Punctuator} : (punctuator p).parts = [] := rfl

@[simp] theorem parts_word {text : String} : (word text).parts = [] := rfl

@[simp] theorem parts_heading {d : Option String} {text : String} :
    (heading d text).parts = [] := rfl

@[simp] theorem parts_seq {a b : Form} : (seq a b).parts = a.parts ++ b.parts := rfl

@[simp] theorem parts_bracketable {a : Form} : (bracketable a).parts = a.parts := rfl

@[simp] theorem parts_all {as : List Form} : (all as).parts = as.flatMap parts := by
  induction as with
  | nil => rfl
  | cons a as ih => simp [all, ih]

@[simp] theorem parts_block {p q : Punctuator} {as : List Form} :
    (block p q as).parts = as.flatMap parts := by
  simp [block]

@[simp] theorem parts_optionalBlock {p q : Punctuator} {as : List Form} :
    (optionalBlock p q as).parts = as.flatMap parts := by
  cases as with
  | nil => rfl
  | cons a as => exact parts_block

@[simp] theorem parts_separated {p : Punctuator} {as : List Form} :
    (separated p as).parts = as.flatMap parts := by
  cases as with
  | nil => rfl
  | cons a as => simp [separated, List.flatMap_map]

/-- Forms of single nodes are the parts of the forms together. -/
@[simp] theorem flatMap_parts_single {α : Type} (form : α → Form) (as : List α) :
    (as.flatMap fun a => [form a]) = as.map form :=
  List.flatMap_pure_eq_map form as

end Form

@[simp] theorem Name.parts_form (n : Name) : n.form.parts = [n.form] := rfl

@[simp] theorem Name.parts_describedForm (d : Option String) (n : Name) :
    (n.describedForm d).parts = [n.describedForm d] := rfl

@[simp] theorem NamedType.parts_form (t : NamedType) : t.form.parts = [t.form] := rfl

@[simp] theorem Value.parts_form (v : Value) : v.form.parts = [v.form] := by
  cases v <;> rfl

@[simp] theorem ObjectValue.parts_form (o : ObjectValue) : o.form.parts = [o.form] := by
  cases o; rfl

@[simp] theorem ObjectFieldOf.parts_form (f : ObjectField) : f.form.parts = [f.form] := rfl

@[simp] theorem Argument.parts_form (a : Argument) : a.form.parts = [a.form] := rfl

@[simp] theorem Directive.parts_form (d : Directive) : d.form.parts = [d.form] := rfl

@[simp] theorem ConnectionType.parts_form (t : ConnectionType) : t.form.parts = [t.form] := rfl

@[simp] theorem TypeRef.parts_form (t : TypeRef) : t.form.parts = [t.form] := by
  cases t <;> rfl

@[simp] theorem InputValueDefinition.parts_form (d : InputValueDefinition) :
    d.form.parts = [d.form] := rfl

@[simp] theorem FieldDefinition.parts_form (d : FieldDefinition) : d.form.parts = [d.form] := rfl

@[simp] theorem EnumValueDefinition.parts_form (d : EnumValueDefinition) :
    d.form.parts = [d.form] := rfl

@[simp] theorem FilterCondition.parts_form (c : FilterCondition) : c.form.parts = [c.form] := rfl

@[simp] theorem OrderExpression.parts_form (e : OrderExpression) : e.form.parts = [e.form] := rfl

@[simp] theorem ObjectTypeDefinition.parts_formFrom (first : Form) (o : ObjectTypeDefinition) :
    (o.formFrom first).parts = [o.formFrom first] := rfl

@[simp] theorem Definition.parts_form (d : Definition) : d.form.parts = [d.form] := by
  cases d <;> rfl

@[simp] theorem parts_arrowForm {direction : Direction} {cardinality : Cardinality}
    {label : Option NamedType} {t : NamedType} :
    (arrowForm direction cardinality label t).parts =
      label.toList.map NamedType.form ++ [t.form] := by
  cases direction <;> cases cardinality <;> cases label <;>
    simp [arrowForm, arrowStartForm, arrowEndForm, labelForm]

@[simp] theorem parts_defaultForm {v : Option Value} :
    (defaultForm v).parts = v.toList.map Value.form := by
  cases v <;> simp [defaultForm]

@[simp] theorem parts_interfaceForms {ts : List NamedType} :
    (interfaceForms ts).parts = ts.map NamedType.form := by
  cases ts <;> simp [interfaceForms, List.flatMap_map]

@[simp] theorem OrderExpression.parts_objectsForm {os : List ObjectValue} :
    (OrderExpression.objectsForm os).parts = os.map ObjectValue.form := by
  rcases os with _ | ⟨o, _ | ⟨p, os⟩⟩ <;> simp [OrderExpression.objectsForm, List.flatMap_map]

@[simp] theorem InputValueDefinition.parts_argumentForms {ds : List InputValueDefinition} :
    (InputValueDefinition.argumentForms ds).parts = ds.map InputValueDefinition.form := by
  simp [InputValueDefinition.argumentForms, List.flatMap_map]

@[simp] theorem Directive.parts_forms {ds : List Directive} :
    (Directive.forms ds).parts = ds.map Directive.form := by
  simp [Directive.forms, List.flatMap_map]

namespace Node

@[simp] theorem isWrittenAs_name (n : Name) : (name n).IsWrittenAs n.form := .inl rfl

@[simp] theorem isWrittenAs_describedName (d : Option String) (n : Name) :
    (name n).IsWrittenAs (n.describedForm d) :=
  .inr ⟨d, rfl⟩

@[simp] theorem isWrittenAs_value (v : Value) : (value v).IsWrittenAs v.form := rfl

@[simp] theorem isWrittenAs_object (o : ObjectValue) : (value o.toValue).IsWrittenAs o.form := rfl

@[simp] theorem isWrittenAs_objectField (f : ObjectField) :
    (objectField f).IsWrittenAs f.form := rfl

@[simp] theorem isWrittenAs_argument (a : Argument) : (argument a).IsWrittenAs a.form := rfl

@[simp] theorem isWrittenAs_directive (d : Directive) : (directive d).IsWrittenAs d.form := rfl

@[simp] theorem isWrittenAs_type (t : TypeRef) : (type t).IsWrittenAs t.form := rfl

@[simp] theorem isWrittenAs_named (t : NamedType) : (type (.named t)).IsWrittenAs t.form := rfl

@[simp] theorem isWrittenAs_connection (t : ConnectionType) :
    (type (.connection t)).IsWrittenAs t.form := rfl

@[simp] theorem isWrittenAs_inputValue (d : InputValueDefinition) :
    (inputValue d).IsWrittenAs d.form := rfl

@[simp] theorem isWrittenAs_field (owner : FieldOwner) (d : FieldDefinition) :
    (field owner d).IsWrittenAs d.form := rfl

@[simp] theorem isWrittenAs_enumValue (d : EnumValueDefinition) :
    (enumValue d).IsWrittenAs d.form := rfl

@[simp] theorem isWrittenAs_condition (c : FilterCondition) :
    (condition c).IsWrittenAs c.form := rfl

@[simp] theorem isWrittenAs_ordering (e : OrderExpression) : (ordering e).IsWrittenAs e.form := rfl

@[simp] theorem isWrittenAs_definition (d : Definition) :
    (definition d).IsWrittenAs d.form := .inl rfl

@[simp] theorem isWrittenAs_extended (o : ObjectTypeDefinition) :
    (definition (.object o)).IsWrittenAs (o.formFrom (.word "type")) := .inr ⟨o, rfl, rfl⟩

end Node

/-- The result is a type and there are directives: these stand behind the type. -/
def OperationDefinition.HasDirectivesLast (d : OperationDefinition) : Prop :=
  (∃ t, d.result = .type t) ∧ d.directives ≠ []

/-- The parts of a mutation or a query in the order of the source. -/
def OperationDefinition.sourceParts (owner : FieldOwner) (d : OperationDefinition) : List Node :=
  .name d.name :: d.arguments.map .inputValue ++
    match d.result with
    | .type t => .type t :: d.directives.map .directive
    | .fields fs => d.directives.map .directive ++ fs.map (.field owner)

/-- A mutation or a query whose directives stand behind the type it answers. -/
def Node.HasDirectivesLast : Node → Prop
  | .definition (.mutation d) => d.HasDirectivesLast
  | .definition (.query d) => d.HasDirectivesLast
  | _ => False

/-- The parts of a node in the order of the source. -/
def Node.sourceParts : Node → List Node
  | .definition (.mutation d) => d.sourceParts .mutation
  | .definition (.query d) => d.sourceParts .query
  | n => n.children

/-- The parts are written as these forms, one after the other. -/
abbrev AreWrittenAs : List Node → List Form → Prop := List.Forall₂ Node.IsWrittenAs

private theorem areWrittenAs_map_append {α : Type} {node : α → Node} {form : α → Form}
    (h : ∀ a, (node a).IsWrittenAs (form a)) (as : List α) {ns : List Node} {Fs : List Form} :
    AreWrittenAs (as.map node ++ ns) (as.map form ++ Fs) ↔ AreWrittenAs ns Fs := by
  induction as with
  | nil => rfl
  | cons a as ih => simp [h a, ih]

theorem OperationDefinition.exists_body (owner : FieldOwner) (keyword : String)
    (d : OperationDefinition) : ∃ body, d.form keyword = .located d.loc body ∧
    AreWrittenAs (d.sourceParts owner) body.parts := by
  refine ⟨_, rfl, ?_⟩
  obtain ⟨text, n, as, ds, result, loc⟩ := d
  cases result <;>
    simp [sourceParts, OperationResult.form, List.flatMap_map, areWrittenAs_map_append]

theorem ObjectTypeDefinition.exists_body (first : Form) (hfirst : first.parts = [])
    (o : ObjectTypeDefinition) : ∃ body, o.formFrom first = .located o.loc body ∧
      AreWrittenAs (Node.definition (.object o)).sourceParts body.parts := by
  refine ⟨_, rfl, ?_⟩
  simp [hfirst, Node.sourceParts, Node.children, Node.slots, Definition.slots, Slot.required,
    Slot.list, PartSort.name, PartSort.namedType, PartSort.directive, PartSort.field,
    List.flatMap_map, areWrittenAs_map_append]

theorem Definition.exists_body (d : Definition) :
    ∃ body, d.form = .located d.loc body ∧
    AreWrittenAs (Node.definition d).sourceParts body.parts := by
  cases d with
  | object o => exact o.exists_body _ rfl
  | mutation d => exact d.exists_body .mutation "mutation"
  | query d => exact d.exists_body .query "query"
  | _ d =>
    refine ⟨_, rfl, ?_⟩
    simp [Node.sourceParts, Node.children, Node.slots, Definition.slots, Slot.required,
      Slot.list, PartSort.name, PartSort.namedType, PartSort.directive, PartSort.field,
      PartSort.enumValue, PartSort.inputValue, PartSort.type, PartSort.condition, PartSort.ordering,
      PartSort.objectType, List.flatMap_map, areWrittenAs_map_append]

theorem Value.exists_body (v : Value) :
    ∃ body, v.form = .located v.loc body ∧ AreWrittenAs (Node.value v).sourceParts body.parts := by
  cases v <;> refine ⟨_, rfl, ?_⟩ <;>
    simp [Node.sourceParts, Node.children, Node.slots, Value.slots, Slot.required,
      Slot.list, PartSort.name, PartSort.value, PartSort.objectField, Form.parts,
      Value.forms_eq_map, Value.fieldForms_eq_map, List.flatMap_map]

theorem TypeRef.exists_body (t : TypeRef) :
    ∃ body, t.form = .located t.loc body ∧ AreWrittenAs (Node.type t).sourceParts body.parts := by
  cases t <;> refine ⟨_, rfl, ?_⟩ <;>
    simp [Node.sourceParts, Node.children, Node.slots, TypeRef.slots, Slot.required,
      Slot.optional, Slot.list, PartSort.name, PartSort.type, PartSort.namedType,
      PartSort.connection, List.flatMap_map, areWrittenAs_map_append]

/-- A node but a document is written as a form that is located where the node is and holds the
parts of the node. -/
theorem Node.exists_body {n : Node} {F : Form} (hF : n.IsWrittenAs F) (hn : ∀ d, n ≠ .document d) :
    ∃ body, F = .located n.loc body ∧ AreWrittenAs n.sourceParts body.parts := by
  cases n with
  | document d => exact absurd rfl (hn d)
  | name n => rcases hF with rfl | ⟨d, rfl⟩ <;> exact ⟨_, rfl, .nil⟩
  | value v =>
    obtain rfl := hF
    exact v.exists_body
  | type t =>
    obtain rfl := hF
    exact t.exists_body
  | definition d =>
    rcases hF with rfl | ⟨o, rfl, rfl⟩
    · exact d.exists_body
    · exact o.exists_body _ rfl
  | _ x =>
    obtain rfl := hF
    refine ⟨_, rfl, ?_⟩
    simp [sourceParts, children, slots, Slot.required, Slot.optional, Slot.list,
      PartSort.name, PartSort.value, PartSort.argument, PartSort.directive, PartSort.type,
      PartSort.inputValue, PartSort.enumValue, PartSort.object, List.flatMap_map,
      areWrittenAs_map_append]

theorem Document.areWrittenAs (d : Document) :
    AreWrittenAs (Node.document d).sourceParts d.form.parts := by
  simp [form, Node.sourceParts, Node.children, Node.slots, Slot.list, PartSort.definition,
    List.flatMap_map]

namespace OperationDefinition

variable (owner : FieldOwner) (put : OperationDefinition → Node)

theorem sourceParts_perm (d : OperationDefinition) :
    (d.sourceParts owner).Perm ((d.slots owner put).flatMap fun s => s.2.children) := by
  obtain ⟨text, n, as, ds, result, loc⟩ := d
  cases result with
  | type t =>
    have turned : (Node.type t :: ds.map Node.directive).Perm
        (ds.map Node.directive ++ [.type t]) :=
      (List.perm_append_singleton _ _).symm
    simpa [sourceParts, slots, OperationResult.slot, Slot.required, Slot.list, PartSort.name,
      PartSort.inputValue, PartSort.directive, PartSort.type] using turned.append_left _
  | fields fs =>
    simp [sourceParts, slots, OperationResult.slot, Slot.required, Slot.list, PartSort.name,
      PartSort.inputValue, PartSort.directive, PartSort.field]

private theorem sourceParts_eq {d : OperationDefinition} (h : ¬ d.HasDirectivesLast) :
    d.sourceParts owner = (d.slots owner put).flatMap fun s => s.2.children := by
  obtain ⟨text, n, as, ds, result, loc⟩ := d
  cases result with
  | type t =>
    obtain rfl : ds = [] := not_not.1 fun hne => h ⟨⟨t, rfl⟩, hne⟩
    simp [sourceParts, slots, OperationResult.slot, Slot.required, Slot.list, PartSort.name,
      PartSort.inputValue, PartSort.type]
  | fields fs =>
    simp [sourceParts, slots, OperationResult.slot, Slot.required, Slot.list, PartSort.name,
      PartSort.inputValue, PartSort.directive, PartSort.field]

theorem exists_turned {d : OperationDefinition} (h : d.HasDirectivesLast) : ∃ t x,
    [.type t, .directive x].Sublist (d.sourceParts owner) ∧
      [.directive x, .type t].Sublist ((d.slots owner put).flatMap fun s => s.2.children) := by
  obtain ⟨text, n, as, ds, result, loc⟩ := d
  obtain ⟨⟨t, rfl⟩, hne⟩ := h
  obtain ⟨x, ds, rfl⟩ := List.exists_cons_of_ne_nil hne
  refine ⟨t, x, ?_, ?_⟩
  · exact List.sublist_append_of_sublist_right (by simp)
  · simp [slots, OperationResult.slot, Slot.required, Slot.list, PartSort.name, PartSort.inputValue,
      PartSort.directive, PartSort.type]

end OperationDefinition

namespace Node

/-- The order of the source is an order of the parts of the node. -/
theorem sourceParts_perm (n : Node) : n.sourceParts.Perm n.children := by
  cases n with
  | definition d =>
    cases d with
    | mutation d => exact d.sourceParts_perm .mutation fun d => .definition (.mutation d)
    | query d => exact d.sourceParts_perm .query fun d => .definition (.query d)
    | _ d => exact .refl _
  | _ x => exact .refl _

theorem sourceParts_eq_children {n : Node} (h : ¬ n.HasDirectivesLast) :
    n.sourceParts = n.children := by
  cases n with
  | definition d =>
    cases d with
    | mutation d =>
      exact OperationDefinition.sourceParts_eq .mutation (fun d => .definition (.mutation d)) h
    | query d => exact OperationDefinition.sourceParts_eq .query (fun d => .definition (.query d)) h
    | _ d => rfl
  | _ x => rfl

/-- Where directives stand last, there is one that is a part in front of the type and stands behind
it in the source. -/
theorem exists_turned {n : Node} (h : n.HasDirectivesLast) : ∃ t x,
    [.type t, .directive x].Sublist n.sourceParts ∧ [.directive x, .type t].Sublist n.children := by
  cases n with
  | definition d =>
    cases d with
    | mutation d =>
      exact OperationDefinition.exists_turned .mutation (fun d => .definition (.mutation d)) h
    | query d => exact OperationDefinition.exists_turned .query (fun d => .definition (.query d)) h
    | _ d => exact h.elim
  | _ x => exact h.elim

end Node

theorem PartSort.Proper.ne_document {α : Type} {s : PartSort α} (h : s.Proper) (a : α)
    (d : Document) : s.node a ≠ .document d := by
  cases h <;> nofun

/-- A document is no part of a node. -/
theorem Node.ne_document_of_mem_children {n c : Node} (h : c ∈ n.children) (d : Document) :
    c ≠ .document d := by
  obtain ⟨⟨k, slot⟩, hs, hc⟩ := List.mem_flatMap.1 h
  cases proper_of_mem_slots _ hs with
  | required proper a put =>
    obtain rfl := List.mem_singleton.1 hc
    exact proper.ne_document a d
  | optional proper a? put =>
    obtain ⟨a, -, rfl⟩ := List.mem_map.1 hc
    exact proper.ne_document a d
  | list proper as put =>
    obtain ⟨a, -, rfl⟩ := List.mem_map.1 hc
    exact proper.ne_document a d

end SchemaLang

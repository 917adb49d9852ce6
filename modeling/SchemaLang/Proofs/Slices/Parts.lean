import Mathlib.Logic.Basic
import SchemaLang.Proofs.Syntax
import SchemaLang.Proofs.Traversal.Within

/-!
# The parts of a form

The form of a node holds the forms of the nodes in it: a node that is within another one was parsed
from a stretch of what that one was parsed from.
-/

namespace SchemaLang

/-- What a node may be written as. A name may have a description in front, and the object in an
extension has another first word than one on its own. -/
def Node.IsWrittenAs : Node → Form → Prop
  | .name n, F => F = n.form ∨ ∃ d, F = n.describedForm d
  | .document d, F => F = d.form
  | .value v, F => F = v.form
  | .objectField f, F => F = f.form
  | .argument a, F => F = a.form
  | .directive d, F => F = d.form
  | .type t, F => F = t.form
  | .inputValue d, F => F = d.form
  | .field _ d, F => F = d.form
  | .enumValue d, F => F = d.form
  | .definition d, F => F = d.form ∨ ∃ o, d = .object o ∧ F = o.formFrom (.word "type")
  | .condition c, F => F = c.form
  | .ordering e, F => F = e.form

namespace Form

/-- The form of a node in a form, this one included. -/
def HasPart : Form → Form → Prop
  | token .., _ => False
  | described .., _ => False
  | empty, _ => False
  | seq a b, G => a.HasPart G ∨ b.HasPart G
  | located loc a, G => G = located loc a ∨ a.HasPart G
  | bracketable a, G => a.HasPart G

theorem HasPart.trans {F G H : Form} (hG : F.HasPart G) (hH : G.HasPart H) : F.HasPart H := by
  induction F with
  | token | described | empty => exact hG.elim
  | seq a b iha ihb => exact hG.imp iha ihb
  | located loc a ih =>
    rcases hG with rfl | hG
    · exact hH
    · exact .inr (ih hG)
  | bracketable a ih => exact ih hG

theorem hasPart_all {as : List Form} {a G : Form} (ha : a ∈ as) (h : a.HasPart G) :
    (all as).HasPart G := by
  induction as with
  | nil => exact absurd ha List.not_mem_nil
  | cons b as ih =>
    rcases List.mem_cons.1 ha with rfl | ha
    · exact .inl h
    · exact .inr (ih ha)

/-- What spans a form spans its parts on the way. -/
theorem HasPart.exists_spans {F G : Form} (hG : F.HasPart G)
    {locate : Nat → Nat → Option Loc} {c c' : Cursor} (h : F.Spans locate c c') :
    ∃ k k', k.lexemes <:+ c.lexemes ∧ G.Spans locate k k' := by
  induction F generalizing c c' with
  | token | described | empty => exact hG.elim
  | seq a b iha ihb =>
    obtain ⟨m, ha, hb⟩ := h
    rcases hG with hG | hG
    · exact iha hG ha
    · obtain ⟨k, k', hk, hG⟩ := ihb hG hb
      exact ⟨k, k', hk.trans (suffix_of_spans ha), hG⟩
  | located loc a ih =>
    rcases hG with rfl | hG
    · exact ⟨c, c', List.suffix_rfl, h⟩
    · exact ih hG h.1
  | bracketable a ih =>
    rcases h with h | ⟨m, m', ⟨-, hm⟩, ha, -⟩
    · exact ih hG h
    · obtain ⟨k, k', hk, hG⟩ := ih hG ha
      exact ⟨k, k', hk.trans hm.suffix, hG⟩

/-- The tokens of a form hold those of its parts, one after the other. -/
theorem HasPart.exists_tokens {F G : Form} (h : F.HasPart G) :
    ∃ front back, F.tokens = front ++ (G.tokens ++ back) := by
  induction F with
  | token | described | empty => exact h.elim
  | seq a b iha ihb =>
    rcases h with h | h
    · obtain ⟨front, back, tokens⟩ := iha h
      exact ⟨front, back ++ b.tokens, by simp [Form.tokens, tokens]⟩
    · obtain ⟨front, back, tokens⟩ := ihb h
      exact ⟨a.tokens ++ front, back, by simp [Form.tokens, tokens]⟩
  | located loc a ih =>
    rcases h with rfl | h
    · exact ⟨[], [], by simp⟩
    · exact ih h
  | bracketable a ih => exact ih h

/-- The form holds one of the node. -/
def HasNode (F : Form) (n : Node) : Prop := ∃ G, n.IsWrittenAs G ∧ F.HasPart G

variable {n : Node}

@[simp] theorem hasNode_empty : ¬ empty.HasNode n := fun ⟨_, _, h⟩ => h

@[simp] theorem hasNode_punctuator {p : Punctuator} : ¬ (punctuator p).HasNode n :=
  fun ⟨_, _, h⟩ => h

@[simp] theorem hasNode_word {text : String} : ¬ (word text).HasNode n := fun ⟨_, _, h⟩ => h

@[simp] theorem hasNode_heading {d : Option String} {text : String} :
    ¬ (heading d text).HasNode n :=
  fun ⟨_, _, h⟩ => h

@[simp] theorem hasNode_seq {a b : Form} : (seq a b).HasNode n ↔ a.HasNode n ∨ b.HasNode n := by
  simp only [HasNode, HasPart, and_or_left, exists_or]

@[simp] theorem hasNode_bracketable {a : Form} : (bracketable a).HasNode n ↔ a.HasNode n := Iff.rfl

@[simp] theorem hasNode_located {loc : Option Loc} {a : Form} :
    (located loc a).HasNode n ↔ n.IsWrittenAs (located loc a) ∨ a.HasNode n := by
  simp only [HasNode, HasPart, and_or_left, exists_or, exists_eq_right]

@[simp] theorem hasNode_all {as : List Form} : (all as).HasNode n ↔ ∃ a ∈ as, a.HasNode n := by
  induction as with
  | nil => simp [all]
  | cons a as ih => simp [all, ih]

@[simp] theorem hasNode_block {p q : Punctuator} {as : List Form} :
    (block p q as).HasNode n ↔ ∃ a ∈ as, a.HasNode n := by
  simp [block]

@[simp] theorem hasNode_optionalBlock {p q : Punctuator} {as : List Form} :
    (optionalBlock p q as).HasNode n ↔ ∃ a ∈ as, a.HasNode n := by
  cases as with
  | nil => simp [optionalBlock]
  | cons a as => exact hasNode_block

@[simp] theorem hasNode_separated {p : Punctuator} {as : List Form} :
    (separated p as).HasNode n ↔ ∃ a ∈ as, a.HasNode n := by
  cases as with
  | nil => simp [separated]
  | cons a as => simp [separated]

end Form

@[simp, grind .] theorem Name.hasNode_form (n : Name) : n.form.HasNode (.name n) :=
  ⟨_, .inl rfl, .inl rfl⟩

@[simp, grind .] theorem Name.hasNode_describedForm (d : Option String) (n : Name) :
    (n.describedForm d).HasNode (.name n) :=
  ⟨_, .inr ⟨d, rfl⟩, .inl rfl⟩

@[simp, grind .] theorem Value.hasNode_form (v : Value) : v.form.HasNode (.value v) := by
  refine ⟨_, rfl, ?_⟩
  cases v <;> exact .inl rfl

@[simp, grind .] theorem ObjectValue.hasNode_form (o : ObjectValue) :
    o.form.HasNode (.value o.toValue) :=
  o.toValue.hasNode_form

@[simp, grind .] theorem ObjectFieldOf.hasNode_form (f : ObjectField) :
    f.form.HasNode (.objectField f) :=
  ⟨_, rfl, .inl rfl⟩

@[simp, grind .] theorem Argument.hasNode_form (a : Argument) : a.form.HasNode (.argument a) :=
  ⟨_, rfl, .inl rfl⟩

@[simp, grind .] theorem Directive.hasNode_form (d : Directive) : d.form.HasNode (.directive d) :=
  ⟨_, rfl, .inl rfl⟩

@[simp, grind .] theorem TypeRef.hasNode_form (t : TypeRef) : t.form.HasNode (.type t) := by
  refine ⟨_, rfl, ?_⟩
  cases t <;> exact .inl rfl

@[simp, grind .] theorem NamedType.hasNode_form (t : NamedType) :
    t.form.HasNode (.type (.named t)) :=
  (TypeRef.named t).hasNode_form

@[simp, grind .] theorem ConnectionType.hasNode_form (t : ConnectionType) :
    t.form.HasNode (.type (.connection t)) :=
  (TypeRef.connection t).hasNode_form

@[simp, grind .] theorem InputValueDefinition.hasNode_form (d : InputValueDefinition) :
    d.form.HasNode (.inputValue d) :=
  ⟨_, rfl, .inl rfl⟩

@[simp, grind .] theorem FieldDefinition.hasNode_form (owner : FieldOwner) (d : FieldDefinition) :
    d.form.HasNode (.field owner d) := ⟨_, rfl, .inl rfl⟩

@[simp, grind .] theorem EnumValueDefinition.hasNode_form (d : EnumValueDefinition) :
    d.form.HasNode (.enumValue d) :=
  ⟨_, rfl, .inl rfl⟩

@[simp, grind .] theorem FilterCondition.hasNode_form (c : FilterCondition) :
    c.form.HasNode (.condition c) :=
  ⟨_, rfl, .inl rfl⟩

@[simp, grind .] theorem OrderExpression.hasNode_form (e : OrderExpression) :
    e.form.HasNode (.ordering e) :=
  ⟨_, rfl, .inl rfl⟩

@[simp, grind .] theorem ObjectTypeDefinition.hasNode_formFrom (o : ObjectTypeDefinition) :
    (o.formFrom (.word "type")).HasNode (.definition (.object o)) :=
  ⟨_, .inr ⟨o, rfl, rfl⟩, .inl rfl⟩

@[simp, grind .] theorem Definition.hasNode_form (d : Definition) :
    d.form.HasNode (.definition d) := by
  refine ⟨_, .inl rfl, ?_⟩
  cases d <;> exact .inl rfl

@[simp] theorem hasNode_arrowForm {direction : Direction} {cardinality : Cardinality}
    {label : Option NamedType} {t : NamedType} {n : Node} :
    (arrowForm direction cardinality label t).HasNode n ↔
      (∃ l ∈ label, l.form.HasNode n) ∨ t.form.HasNode n := by
  cases direction <;> cases cardinality <;> cases label <;>
    simp [arrowForm, arrowStartForm, arrowEndForm, labelForm]

@[simp] theorem hasNode_defaultForm {v : Option Value} {n : Node} :
    (defaultForm v).HasNode n ↔ ∃ w ∈ v, w.form.HasNode n := by
  cases v <;> simp [defaultForm]

@[simp] theorem hasNode_interfaceForms {ts : List NamedType} {n : Node} :
    (interfaceForms ts).HasNode n ↔ ∃ t ∈ ts, t.form.HasNode n := by
  cases ts <;> simp [interfaceForms]

@[simp] theorem OrderExpression.hasNode_objectsForm {os : List ObjectValue} {n : Node} :
    (OrderExpression.objectsForm os).HasNode n ↔ ∃ o ∈ os, o.form.HasNode n := by
  rcases os with _ | ⟨o, _ | ⟨p, os⟩⟩ <;> simp [OrderExpression.objectsForm]

/-- An object holds its parts, whatever its first word. -/
theorem ObjectTypeDefinition.hasNode_formFrom_of_mem_slots (o : ObjectTypeDefinition)
    (first : Form) : ∀ s ∈ (Definition.object o).slots, s.2.Forall (o.formFrom first).HasNode := by
  simp [Definition.slots, PartSort.name, PartSort.namedType, PartSort.directive,
    PartSort.field, formFrom, Directive.forms]
  grind

/-- A mutation or a query holds its parts. -/
theorem OperationDefinition.hasNode_of_mem_slots (owner : FieldOwner) (keyword : String)
    (put : OperationDefinition → Node) (d : OperationDefinition) :
    ∀ s ∈ d.slots owner put, s.2.Forall (d.form keyword).HasNode := by
  obtain ⟨text, n, as, ds, result, loc⟩ := d
  cases result <;>
    simp [slots, OperationResult.slot, PartSort.name, PartSort.inputValue,
      PartSort.directive, PartSort.type, PartSort.field, form, OperationResult.form,
      InputValueDefinition.argumentForms, Directive.forms] <;>
    grind

private theorem Definition.hasNode_of_mem_slots (d : Definition) :
    ∀ s ∈ d.slots, s.2.Forall d.form.HasNode := by
  cases d with
  | scalar d =>
    simp [slots, PartSort.name, PartSort.directive, form, ScalarTypeDefinition.form,
      Directive.forms]
    grind
  | object d => exact d.hasNode_formFrom_of_mem_slots _
  | interface d =>
    simp [slots, PartSort.name, PartSort.directive, PartSort.field, form,
      InterfaceTypeDefinition.form, Directive.forms]
    grind
  | union d =>
    simp [slots, PartSort.name, PartSort.directive, PartSort.namedType, form,
      UnionTypeDefinition.form, Directive.forms]
    grind
  | enum d =>
    simp [slots, PartSort.name, PartSort.directive, PartSort.enumValue, form,
      EnumTypeDefinition.form, Directive.forms]
    grind
  | inputObject d =>
    simp [slots, PartSort.name, PartSort.directive, PartSort.inputValue, form,
      InputObjectTypeDefinition.form, Directive.forms]
    grind
  | typeExtension d => simp [slots, PartSort.objectType, form, TypeExtensionDefinition.form]
  | directive d =>
    simp [slots, PartSort.name, PartSort.inputValue, form, DirectiveDefinition.form,
      InputValueDefinition.argumentForms]
    grind
  | mutation d =>
    exact d.hasNode_of_mem_slots .mutation "mutation" fun d => .definition (.mutation d)
  | query d => exact d.hasNode_of_mem_slots .query "query" fun d => .definition (.query d)
  | filter d =>
    simp [slots, PartSort.type, PartSort.condition, form, FilterDefinition.form]
    grind
  | order d =>
    simp [slots, PartSort.type, PartSort.ordering, form, OrderDefinition.form]
    grind

namespace Node

/-- What a node is written as holds the parts of the node. -/
theorem hasNode_of_mem_slots {n : Node} {F : Form} (hF : n.IsWrittenAs F) :
    ∀ s ∈ n.slots, s.2.Forall F.HasNode := by
  cases n with
  | name n => simp [slots]
  | document d =>
    obtain rfl := hF
    simp [slots, PartSort.definition, Document.form]
    grind
  | value v =>
    obtain rfl := hF
    cases v <;>
      simp [slots, Value.slots, PartSort.name, PartSort.value, PartSort.objectField, Value.form,
        Value.forms_eq_map, Value.fieldForms_eq_map] <;>
      grind
  | objectField f =>
    obtain rfl := hF
    simp [slots, PartSort.name, PartSort.value, ObjectFieldOf.form]
  | argument a =>
    obtain rfl := hF
    simp [slots, PartSort.name, PartSort.value, Argument.form]
  | directive d =>
    obtain rfl := hF
    simp [slots, PartSort.name, PartSort.argument, Directive.form]
    grind
  | type t =>
    obtain rfl := hF
    cases t with
    | named t => simp [slots, TypeRef.slots, PartSort.name, TypeRef.form, NamedType.form]
    | list t loc => simp [slots, TypeRef.slots, PartSort.type, TypeRef.form]
    | nonNull t loc => simp [slots, TypeRef.slots, PartSort.type, TypeRef.form]
    | connection t =>
      simp [slots, TypeRef.slots, PartSort.namedType, TypeRef.form, ConnectionType.form]
      grind
    | connectionJoin t =>
      simp [slots, TypeRef.slots, PartSort.connection, TypeRef.form]
      grind
    | edge t =>
      simp [slots, TypeRef.slots, PartSort.namedType, TypeRef.form, EdgeType.form]
      grind
  | inputValue d =>
    obtain rfl := hF
    simp [slots, PartSort.name, PartSort.type, PartSort.value, PartSort.directive,
      InputValueDefinition.form, Directive.forms]
    grind
  | field owner d =>
    obtain rfl := hF
    simp [slots, PartSort.name, PartSort.type, PartSort.inputValue, PartSort.directive,
      FieldDefinition.form, InputValueDefinition.argumentForms, Directive.forms]
    grind
  | enumValue d =>
    obtain rfl := hF
    simp [slots, PartSort.name, PartSort.directive, EnumValueDefinition.form, Directive.forms]
    grind
  | definition d =>
    rcases hF with rfl | ⟨o, rfl, rfl⟩
    · exact d.hasNode_of_mem_slots
    · exact o.hasNode_formFrom_of_mem_slots _
  | condition c =>
    obtain rfl := hF
    simp [slots, PartSort.enumValue, PartSort.inputValue, PartSort.object, FilterCondition.form,
      InputValueDefinition.argumentForms]
    grind
  | ordering e =>
    obtain rfl := hF
    simp [slots, PartSort.enumValue, PartSort.object, OrderExpression.form]
    grind

/-- The form of a node holds every other node within it. -/
theorem Within.hasNode {root n : Node} {F : Form} (h : root.Within n) (hF : root.IsWrittenAs F)
    (hne : n ≠ root) : F.HasNode n := by
  induction h with
  | refl => exact absurd rfl hne
  | @child n c hn hc ih =>
    by_cases heq : n = root
    · rw [heq] at hc
      exact forall_mem_children.2 (hasNode_of_mem_slots hF) c hc
    · obtain ⟨G, hG, hpart⟩ := ih heq
      obtain ⟨H, hH, hpart'⟩ := forall_mem_children.2 (hasNode_of_mem_slots hG) c hc
      exact ⟨H, hH, hpart.trans hpart'⟩

end Node

end SchemaLang

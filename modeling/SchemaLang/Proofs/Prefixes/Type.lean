import SchemaLang.Proofs.Completeness.TypeRef
import SchemaLang.Proofs.Prefixes.Basic
import SchemaLang.Proofs.Soundness.Value

/-!
# Parses of values and types that begin alike
-/

namespace SchemaLang.Parser

variable {m : Lockstep} {levels levels' : Nat}

theorem Follows.variableValue : Follows m variableValue variableValue :=
  start fun _ _ => (expect .dollar).bind fun _ => name.bind fun _ => located (pure _)

theorem Follows.atom (constant : Bool) : Follows m (atom constant) (atom constant) := by
  refine start fun _ _ => token fun t => ?_
  split
  · exact advance.bind fun _ => located (pure _)
  · exact advance.bind fun _ => located (pure _)
  · exact advance.bind fun _ => located (pure _)
  · refine ite (advance.bind fun _ => located (pure _)) (ite ?_ ?_)
    · exact unexpected.withHint .nullIsNoValue
    · exact advance.bind fun _ => located (pure _)
  · exact ite (unexpected.withHint .variableInDefault) variableValue
  · exact unexpected

private theorem isProductive_objectFieldOf {constant : Bool} {item : Parser Value}
    (hi : Yields item Value.form (Value.Conforms constant levels)) :
    IsProductive (objectFieldOf item) :=
  (yields_objectFieldOf hi).isProductive (Q := fun _ => True) fun _ _ => trivial

section Nested

variable {constant : Bool} {item item' : Parser Value} (hi : Follows m item item')
  (yi : Yields item Value.form (Value.Conforms constant levels))
  (yi' : Yields item' Value.form (Value.Conforms constant levels'))

include hi yi yi'

theorem Follows.listOf : Follows m (listOf item) (listOf item') := by
  have productive := yi.isProductive fun v _ => v.starts_form
  have productive' := yi'.isProductive fun v _ => v.starts_form
  exact start fun _ _ => (block hi productive productive' .bracketOpen .bracketClose).bind fun vs =>
    located (pure _)

theorem Follows.objectOf : Follows m (objectOf item) (objectOf item') := by
  have field : Follows m (objectFieldOf item) (objectFieldOf item') :=
    start fun _ _ => name.bind fun n => (expect .colon).bind fun _ => hi.bind fun v =>
      located (pure _)
  have productive := isProductive_objectFieldOf yi
  have productive' := isProductive_objectFieldOf yi'
  exact start fun _ _ => (block field productive productive' .braceOpen .braceClose).bind fun fs =>
    located (pure _)

end Nested

theorem Follows.value (constant : Bool) (h : levels ≤ levels') :
    Follows m (value constant levels) (value constant levels') := by
  induction levels generalizing levels' with
  | zero =>
    rw [value_zero_eq]
    cases levels' with
    | zero =>
      rw [value_zero_eq]
      exact token fun t => ite (tooDeep _) (ite (tooDeep _) (atom constant))
    | succ levels' =>
      rw [value_succ_eq]
      exact token fun t => ite (tooDeep _) (ite (tooDeep _) (atom constant))
  | succ levels ih =>
    obtain ⟨levels', rfl⟩ := Nat.exists_eq_add_one_of_ne_zero (Nat.ne_zero_of_lt h)
    have item := ih (Nat.le_of_succ_le_succ h)
    rw [value_succ_eq, value_succ_eq]
    refine token fun t => ite ?_ (ite (map ?_ _) (atom constant))
    · exact listOf item (yields_value constant levels) (yields_value constant levels')
    · exact objectOf item (yields_value constant levels) (yields_value constant levels')

section Levels

variable (h : levels ≤ levels')

include h

theorem Follows.objectValue : Follows m (objectValue levels) (objectValue levels') := by
  cases levels with
  | zero => exact tooDeep _
  | succ levels =>
    obtain ⟨levels', rfl⟩ := Nat.exists_eq_add_one_of_ne_zero (Nat.ne_zero_of_lt h)
    have item : Follows m (Parser.value false levels) (Parser.value false levels') :=
      value false (Nat.le_of_succ_le_succ h)
    exact objectOf item (yields_value false levels) (yields_value false levels')

theorem Follows.argument : Follows m (argument levels) (argument levels') := by
  refine start fun _ _ => name.bind fun n => (expect .colon).bind fun _ => ?_
  exact (value false h).bind fun v => located (pure _)

theorem Follows.directive : Follows m (directive levels) (directive levels') := by
  have productive (n : Nat) : IsProductive (Parser.argument n) :=
    (yields_argument n).isProductive (Q := fun _ => True) fun _ _ => trivial
  refine start fun _ _ => (expect .atSign).bind fun _ => name.bind fun n => ?_
  refine (optionalBlock (argument h) (productive levels)
    (productive levels') .parenOpen .parenClose).bind fun as => ?_
  exact located (pure _)

theorem Follows.directives : Follows m (directives levels) (directives levels') := by
  have productive (n : Nat) : IsProductive (Parser.directive n) :=
    (yields_directive n).isProductive (Q := fun _ => True) fun _ _ => trivial
  exact many (directive h) (productive levels) (productive levels') _

end Levels

theorem Follows.namedType : Follows m namedType namedType :=
  start fun _ _ => name.bind fun _ => located (pure _)

theorem isProductive_namedType : IsProductive namedType :=
  yields_namedType.isProductive (Q := fun _ => True) fun _ _ => trivial

theorem Follows.named :
    Follows m (return TypeRef.named (← Parser.namedType))
      (return TypeRef.named (← Parser.namedType)) :=
  namedType.bind fun t => pure (TypeRef.named t)

theorem Follows.orNonNull {p p' : Parser TypeRef} (h : Follows m p p') :
    Follows m (orNonNull p) (orNonNull p') :=
  start fun _ _ => h.bind fun _ => (skip .bang).bind fun _ => ite (located (pure _)) (pure _)

theorem Follows.listTypeOf {p p' : Parser TypeRef} (h : Follows m p p') :
    Follows m (listTypeOf p) (listTypeOf p') := by
  refine start fun _ _ => (expect .bracketOpen).bind fun _ => h.bind fun t => ?_
  exact (expect .bracketClose).bind fun _ => located (pure _)

private theorem Follows.plainType_of_listType (h : Follows m (listType levels) (listType levels')) :
    Follows m (plainType levels) (plainType levels') := by
  rw [plainType_eq, plainType_eq]
  exact orNonNull (peek .bracketOpen fun b => ite h named)

theorem Follows.listType (h : levels ≤ levels') :
    Follows m (listType levels) (listType levels') := by
  induction levels generalizing levels' with
  | zero => cases levels' <;> exact listTypeOf (tooDeep _)
  | succ levels ih =>
    obtain ⟨levels', rfl⟩ := Nat.exists_eq_add_one_of_ne_zero (Nat.ne_zero_of_lt h)
    exact listTypeOf (plainType_of_listType (ih (Nat.le_of_succ_le_succ h)))

theorem Follows.plainType (h : levels ≤ levels') :
    Follows m (plainType levels) (plainType levels') :=
  plainType_of_listType (listType h)

theorem Follows.arrowStart : Follows m arrowStart arrowStart := by
  refine (skip .dash).bind fun _ => ite (pure _) ((skip .equals).bind fun _ => ite (pure _) ?_)
  refine (skip .less).bind fun _ => ite ?_ unexpected
  refine (skip .dash).bind fun _ => ite (pure _) ((skip .equals).bind fun _ => ite (pure _) ?_)
  exact unexpected.withHint .incomingArrowStart

theorem Follows.edgeLabel : Follows m edgeLabel edgeLabel :=
  token fun _ => ite (namedType.bind fun t => pure (some t)) (pure none)

theorem Follows.arrowEnd (direction : Direction) (cardinality : Cardinality) :
    Follows m (arrowEnd direction cardinality) (arrowEnd direction cardinality) :=
  ((expect _).withHint _).bind fun _ => ite ((expect .greater).withHint _) (pure _)

theorem Follows.connectionType : Follows m connectionType connectionType := by
  refine start fun _ _ => arrowStart.bind fun a => edgeLabel.bind fun label => ?_
  exact (arrowEnd a.1 a.2).bind fun _ => namedType.bind fun t => located (pure _)

private theorem isProductive_connectionType : IsProductive connectionType :=
  yields_connectionType.isProductive fun t _ => starts_connectionType t

theorem Follows.edgeStart : Follows m edgeStart edgeStart := by
  refine (skip .equals).bind fun _ => ite (pure _) ((skip .less).bind fun _ => ite ?_ unexpected)
  exact ((expect .equals).withHint _).bind fun _ => pure _

theorem Follows.edgeType : Follows m edgeType edgeType := by
  refine start fun _ _ => edgeStart.bind fun a => edgeLabel.bind fun label => ?_
  exact (arrowEnd a .plural).bind fun _ => namedType.bind fun t => located (pure _)

section Levels

variable (h : levels ≤ levels')

include h

theorem Follows.fieldType : Follows m (fieldType levels) (fieldType levels') := by
  refine orNonNull (start fun _ _ => peek .bracketOpen fun b =>
    ite (listType h) (token fun t => ite ?_ named))
  refine (many connectionType isProductive_connectionType isProductive_connectionType _).bind
    fun ts => ?_
  rcases ts with _ | ⟨t, _ | ⟨u, ts⟩⟩
  · exact located (pure _)
  · exact pure _
  · exact located (pure _)

theorem Follows.mutationFieldType :
    Follows m (mutationFieldType levels) (mutationFieldType levels') := by
  refine orNonNull (peek .bracketOpen fun b => ite (listType h) ?_)
  exact peek .equals fun a => peek .less fun d =>
    ite (edgeType.bind fun t => pure (TypeRef.edge t)) named

theorem Follows.targetType : Follows m (targetType levels) (targetType levels') := by
  refine peek .bracketOpen fun b =>
    ite (listType h) (token fun t => ite ?_ (token fun u => ite named unexpected))
  exact connectionType.bind fun t => pure (TypeRef.connection t)

end Levels

end SchemaLang.Parser

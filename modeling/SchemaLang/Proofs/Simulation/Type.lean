import SchemaLang.Proofs.Locations.Form
import SchemaLang.Proofs.Simulation.Basic

/-!
# Parses of values and types in step
-/

namespace SchemaLang.Parser

variable {m : Simulation}

private theorem simulates_variableValue :
    Simulates m (·.mapLoc m.relocate) variableValue variableValue := by
  refine Simulates.start fun hn => (simulates_expect .dollar).bind fun _ =>
    simulates_name.bind fun n => ?_
  exact Simulates.located hn fun loc => Simulates.pure rfl

private theorem simulates_atom (constant : Bool) :
    Simulates m (·.mapLoc m.relocate) (atom constant) (atom constant) := by
  refine Simulates.start fun hn => Simulates.token fun t => ?_
  split
  · exact simulates_advance.bind fun _ => Simulates.located hn fun loc => Simulates.pure rfl
  · exact simulates_advance.bind fun _ => Simulates.located hn fun loc => Simulates.pure rfl
  · exact simulates_advance.bind fun _ => Simulates.located hn fun loc => Simulates.pure rfl
  · refine Simulates.ite ?_ (Simulates.ite ?_ ?_)
    · exact simulates_advance.bind fun _ => Simulates.located hn fun loc => Simulates.pure rfl
    · exact (simulates_unexpected _).withHint .nullIsNoValue
    · exact simulates_advance.bind fun _ => Simulates.located hn fun loc => Simulates.pure rfl
  · exact Simulates.ite ((simulates_unexpected _).withHint .variableInDefault)
      simulates_variableValue
  · exact simulates_unexpected _

section Nested

variable {item item' : Parser Value} (h : Simulates m (·.mapLoc m.relocate) item item')

include h

private theorem simulates_listOf :
    Simulates m (·.mapLoc m.relocate) (listOf item) (listOf item') := by
  refine Simulates.start fun hn => (simulates_block h .bracketOpen .bracketClose).bind fun vs => ?_
  refine Simulates.located hn fun loc => Simulates.pure ?_
  rw [Value.mapLoc, Value.mapLocValues_eq_map]

private theorem simulates_objectFieldOf :
    Simulates m (ObjectFieldOf.mapLoc m.relocate) (objectFieldOf item) (objectFieldOf item') := by
  refine Simulates.start fun hn => simulates_name.bind fun n =>
    (simulates_expect .colon).bind fun _ => ?_
  exact h.bind fun v => Simulates.located hn fun loc => Simulates.pure rfl

private theorem simulates_objectOf :
    Simulates m (·.mapLoc m.relocate) (objectOf item) (objectOf item') := by
  refine Simulates.start fun hn => ?_
  refine (simulates_block (simulates_objectFieldOf h) .braceOpen .braceClose).bind fun fs => ?_
  exact Simulates.located hn fun loc => Simulates.pure rfl

end Nested

theorem simulates_value (constant : Bool) (levels : Nat) :
    Simulates m (·.mapLoc m.relocate) (value constant levels) (value constant levels) := by
  induction levels with
  | zero =>
    refine Simulates.token fun t => ?_
    split
    · exact simulates_tooDeep _
    · exact simulates_tooDeep _
    · exact simulates_atom constant
  | succ levels ih =>
    refine Simulates.token fun t => ?_
    split
    · exact simulates_listOf ih
    · exact (simulates_objectOf ih).bind fun o => Simulates.pure (o.toValue_mapLoc m.relocate)
    · exact simulates_atom constant

theorem simulates_objectValue (levels : Nat) :
    Simulates m (·.mapLoc m.relocate) (objectValue levels) (objectValue levels) := by
  cases levels with
  | zero => exact simulates_tooDeep _
  | succ levels => exact simulates_objectOf (simulates_value false levels)

private theorem simulates_argument (levels : Nat) :
    Simulates m (·.mapLoc m.relocate) (argument levels) (argument levels) := by
  refine Simulates.start fun hn => simulates_name.bind fun n =>
    (simulates_expect .colon).bind fun _ => ?_
  exact (simulates_value false levels).bind fun v => Simulates.located hn fun loc =>
    Simulates.pure rfl

private theorem simulates_directive (levels : Nat) :
    Simulates m (·.mapLoc m.relocate) (directive levels) (directive levels) := by
  refine Simulates.start fun hn => (simulates_expect .atSign).bind fun _ =>
    simulates_name.bind fun n => ?_
  refine (simulates_optionalBlock (simulates_argument levels) .parenOpen .parenClose).bind ?_
  intro as
  exact Simulates.located hn fun loc => Simulates.pure rfl

theorem simulates_directives (levels : Nat) :
    Simulates m (List.map (·.mapLoc m.relocate)) (directives levels) (directives levels) :=
  simulates_many (simulates_directive levels) _

theorem simulates_namedType : Simulates m (·.mapLoc m.relocate) namedType namedType := by
  refine Simulates.start fun hn => simulates_name.bind fun n => ?_
  exact Simulates.located hn fun loc => Simulates.pure rfl

section Marked

variable {p p' : Parser TypeRef} (h : Simulates m (·.mapLoc m.relocate) p p')

include h

private theorem simulates_orNonNull :
    Simulates m (·.mapLoc m.relocate) (orNonNull p) (orNonNull p') := by
  refine Simulates.start fun hn => h.bind fun t => (simulates_skip .bang).bind fun b => ?_
  refine Simulates.ite ?_ (Simulates.pure rfl)
  exact Simulates.located hn fun loc => Simulates.pure rfl

private theorem simulates_listTypeOf :
    Simulates m (·.mapLoc m.relocate) (listTypeOf p) (listTypeOf p') := by
  refine Simulates.start fun hn => (simulates_expect .bracketOpen).bind fun _ => h.bind fun t => ?_
  refine (simulates_expect .bracketClose).bind fun _ => ?_
  exact Simulates.located hn fun loc => Simulates.pure rfl

end Marked

private theorem simulates_named :
    Simulates m (TypeRef.mapLoc m.relocate) (return .named (← namedType))
      (return .named (← namedType)) :=
  simulates_namedType.bind fun _ => Simulates.pure rfl

theorem simulates_plainType (levels : Nat) :
    Simulates m (·.mapLoc m.relocate) (plainType levels) (plainType levels) := by
  induction levels with
  | zero =>
    refine simulates_orNonNull (Simulates.peek .bracketOpen fun b =>
      Simulates.ite ?_ simulates_named)
    exact simulates_listTypeOf (simulates_tooDeep _)
  | succ levels ih =>
    refine simulates_orNonNull (Simulates.peek .bracketOpen fun b =>
      Simulates.ite ?_ simulates_named)
    exact simulates_listTypeOf ih

private theorem simulates_listType (levels : Nat) :
    Simulates m (·.mapLoc m.relocate) (listType levels) (listType levels) := by
  cases levels with
  | zero => exact simulates_listTypeOf (simulates_tooDeep _)
  | succ levels => exact simulates_listTypeOf (simulates_plainType levels)

private theorem simulates_arrowStart : Simulates m id arrowStart arrowStart := by
  refine (simulates_skip .dash).bind fun _ => Simulates.ite (Simulates.pure rfl) ?_
  refine (simulates_skip .equals).bind fun _ => Simulates.ite (Simulates.pure rfl) ?_
  refine (simulates_skip .less).bind fun _ => Simulates.ite ?_ (simulates_unexpected id)
  refine (simulates_skip .dash).bind fun _ => Simulates.ite (Simulates.pure rfl) ?_
  refine (simulates_skip .equals).bind fun _ => Simulates.ite (Simulates.pure rfl) ?_
  exact (simulates_unexpected id).withHint .incomingArrowStart

private theorem simulates_edgeLabel :
    Simulates m (Option.map (·.mapLoc m.relocate)) edgeLabel edgeLabel := by
  refine Simulates.token fun t => Simulates.ite ?_ (Simulates.pure rfl)
  exact simulates_namedType.bind fun t => Simulates.pure rfl

private theorem simulates_arrowEnd (direction : Direction) (cardinality : Cardinality) :
    Simulates m id (arrowEnd direction cardinality) (arrowEnd direction cardinality) := by
  refine ((simulates_expect _).withHint _).bind fun _ => Simulates.ite ?_ (Simulates.pure rfl)
  exact (simulates_expect .greater).withHint _

private theorem simulates_connectionType :
    Simulates m (·.mapLoc m.relocate) connectionType connectionType := by
  refine Simulates.start fun hn => simulates_arrowStart.bind fun a => ?_
  refine simulates_edgeLabel.bind fun label => (simulates_arrowEnd a.1 a.2).bind fun _ => ?_
  refine simulates_namedType.bind fun t => ?_
  exact Simulates.located hn fun loc => Simulates.pure rfl

private theorem simulates_edgeStart : Simulates m id edgeStart edgeStart := by
  refine (simulates_skip .equals).bind fun _ => Simulates.ite (Simulates.pure rfl) ?_
  refine (simulates_skip .less).bind fun _ => Simulates.ite ?_ (simulates_unexpected id)
  exact ((simulates_expect .equals).withHint _).bind fun _ => Simulates.pure rfl

private theorem simulates_edgeType : Simulates m (·.mapLoc m.relocate) edgeType edgeType := by
  refine Simulates.start fun hn => simulates_edgeStart.bind fun a => ?_
  refine simulates_edgeLabel.bind fun label => (simulates_arrowEnd a .plural).bind fun _ => ?_
  refine simulates_namedType.bind fun t => ?_
  exact Simulates.located hn fun loc => Simulates.pure rfl

theorem simulates_fieldType (levels : Nat) :
    Simulates m (·.mapLoc m.relocate) (fieldType levels) (fieldType levels) := by
  refine simulates_orNonNull (Simulates.start fun hn => Simulates.peek .bracketOpen fun b => ?_)
  refine Simulates.ite (simulates_listType levels) (Simulates.token fun t =>
    Simulates.ite ?_ simulates_named)
  refine (simulates_many simulates_connectionType Token.startsArrow).bind fun ts => ?_
  rcases ts with _ | ⟨t, _ | ⟨u, ts⟩⟩
  · exact Simulates.located hn fun loc => Simulates.pure rfl
  · exact Simulates.pure rfl
  · exact Simulates.located hn fun loc => Simulates.pure rfl

theorem simulates_mutationFieldType (levels : Nat) :
    Simulates m (·.mapLoc m.relocate) (mutationFieldType levels) (mutationFieldType levels) := by
  refine simulates_orNonNull (Simulates.peek .bracketOpen fun b =>
    Simulates.ite (simulates_listType levels) ?_)
  refine Simulates.peek .equals fun a => Simulates.peek .less fun d =>
    Simulates.ite ?_ simulates_named
  exact simulates_edgeType.bind fun t => Simulates.pure rfl

theorem simulates_targetType (levels : Nat) :
    Simulates m (·.mapLoc m.relocate) (targetType levels) (targetType levels) := by
  refine Simulates.peek .bracketOpen fun b => Simulates.ite (simulates_listType levels) ?_
  refine Simulates.token fun t =>
    Simulates.ite ?_ (Simulates.token fun u => Simulates.ite simulates_named ?_)
  · exact simulates_connectionType.bind fun t => Simulates.pure rfl
  · exact simulates_unexpected _

end SchemaLang.Parser

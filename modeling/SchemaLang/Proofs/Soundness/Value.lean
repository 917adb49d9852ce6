import SchemaLang.Parser.Value
import SchemaLang.Proofs.Soundness.Basic

/-!
# What the parsers of values answer

What a value may be is decided by the token it starts with, how deep it is nested by the levels
that are left, and whether a variable may stand in it by the parser of the items, which lists and
objects hand on.
-/

namespace SchemaLang.Parser

variable {levels : Nat}

private theorem yields_variableValue :
    Yields variableValue Value.form (Value.Conforms false levels) := by
  intro s c c' v hc h
  simp only [variableValue, start_bind, bind_eq_ok, located_bind, pure_eq_ok] at h
  obtain ⟨_, m, hdollar, n, m', hn, rfl, rfl⟩ := h
  obtain ⟨fdollar, -, hm⟩ := (yields_expect .dollar).step hc hdollar
  obtain ⟨fn, pn⟩ := yields_name hm hn
  exact ⟨⟨⟨m, fdollar, m', fn, rfl⟩, rfl⟩, ⟨rfl, pn⟩, Nat.zero_le _⟩

private theorem yields_atom (constant : Bool) :
    Yields (atom constant) Value.form (Value.Conforms constant levels) := by
  intro s c c' v hc h
  have hvalid := hc.current.token
  simp only [atom, start_bind, token_bind] at h
  cases ht : c.current.token with
  | int text =>
    simp only [ht, bind_eq_ok, located_bind, pure_eq_ok] at h hvalid
    obtain ⟨_, m, hadv, rfl, rfl⟩ := h
    exact ⟨⟨⟨ht, moves_of_advance hc (by simp [ht]) hadv⟩, rfl⟩, hvalid, Nat.zero_le _⟩
  | float text =>
    simp only [ht, bind_eq_ok, located_bind, pure_eq_ok] at h hvalid
    obtain ⟨_, m, hadv, rfl, rfl⟩ := h
    exact ⟨⟨⟨ht, moves_of_advance hc (by simp [ht]) hadv⟩, rfl⟩, hvalid, Nat.zero_le _⟩
  | string text =>
    simp only [ht, bind_eq_ok, located_bind, pure_eq_ok] at h
    obtain ⟨_, m, hadv, rfl, rfl⟩ := h
    exact ⟨⟨⟨ht, moves_of_advance hc (by simp [ht]) hadv⟩, rfl⟩, trivial, Nat.zero_le _⟩
  | name text =>
    simp only [ht] at h hvalid
    have hend : c.current.token ≠ .endOfInput := by simp [ht]
    split at h
    · rename_i hbool
      simp only [bind_eq_ok, located_bind, pure_eq_ok] at h
      obtain ⟨_, m, hadv, rfl, rfl⟩ := h
      refine ⟨⟨⟨?_, moves_of_advance hc hend hadv⟩, rfl⟩, trivial, Nat.zero_le _⟩
      rcases hbool with rfl | rfl
      · exact ht
      · exact ht
    · rename_i hbool
      obtain ⟨htrue, hfalse⟩ := not_or.1 hbool
      split at h
      · simp [unexpected] at h
      · rename_i hnull
        simp only [bind_eq_ok, located_bind, pure_eq_ok] at h
        obtain ⟨_, m, hadv, rfl, rfl⟩ := h
        exact ⟨⟨⟨ht, moves_of_advance hc hend hadv⟩, rfl⟩,
          ⟨hvalid, htrue, hfalse, hnull⟩, Nat.zero_le _⟩
  | punctuator p =>
    cases p with
    | dollar =>
      cases constant with
      | false =>
        simp only [ht, Bool.false_eq_true, if_false] at h
        exact yields_variableValue hc h
      | true => simp [ht] at h
    | _ => simp [ht] at h
  | _ => simp [ht] at h

private theorem yields_listOf {constant : Bool} {item : Parser Value}
    (hi : Yields item Value.form (Value.Conforms constant levels)) :
    Yields (listOf item) Value.form (Value.Conforms constant (levels + 1)) := by
  intro s c c' v hc h
  simp only [listOf, start_bind, bind_eq_ok, located_bind, pure_eq_ok] at h
  obtain ⟨vs, m, hvs, rfl, rfl⟩ := h
  obtain ⟨fvs, pvs⟩ := yields_block .bracketOpen .bracketClose hi hc hvs
  simp only [← Value.forms_eq_map] at fvs
  exact ⟨⟨fvs, rfl⟩, Value.list_conforms.2 pvs⟩

theorem yields_objectFieldOf {constant : Bool} {item : Parser Value}
    (hi : Yields item Value.form (Value.Conforms constant levels)) :
    Yields (objectFieldOf item) ObjectFieldOf.form (ObjectFieldOf.Conforms constant levels) := by
  intro s c c' f hc h
  simp only [objectFieldOf, start_bind, bind_eq_ok, located_bind, pure_eq_ok] at h
  obtain ⟨n, m₁, hn, _, m₂, hcolon, v, m₃, hv, rfl, rfl⟩ := h
  obtain ⟨fn, pn, hm₁⟩ := yields_name.step hc hn
  obtain ⟨fcolon, -, hm₂⟩ := (yields_expect .colon).step hm₁ hcolon
  obtain ⟨fv, pv⟩ := hi hm₂ hv
  exact ⟨⟨⟨m₁, fn, m₂, fcolon, m₃, fv, rfl⟩, rfl⟩, pn, pv⟩

private theorem yields_objectOf {constant : Bool} {item : Parser Value}
    (hi : Yields item Value.form (Value.Conforms constant levels)) :
    Yields (objectOf item) ObjectValue.form (fun o =>
      o.toValue.Conforms constant (levels + 1)) := by
  intro s c c' o hc h
  simp only [objectOf, start_bind, bind_eq_ok, located_bind, pure_eq_ok] at h
  obtain ⟨fs, m, hfs, rfl, rfl⟩ := h
  obtain ⟨ffs, pfs⟩ := yields_block .braceOpen .braceClose (yields_objectFieldOf hi) hc hfs
  simp only [← Value.fieldForms_eq_map] at ffs
  exact ⟨⟨ffs, rfl⟩, Value.object_conforms.2 pfs⟩

/-- With no level left a value is one without brackets. -/
theorem value_zero {s : Setting} {c : Cursor} (constant : Bool) : value constant 0 s c =
    if c.current.token = .punctuator .bracketOpen ∨
    c.current.token = .punctuator .braceOpen then tooDeep s c
    else atom constant s c := by
  simp only [value, token_bind]
  cases c.current.token with
  | punctuator p => cases p <;> simp
  | _ => simp

/-- With a level left the bracket decides what a value is. -/
theorem value_succ {s : Setting} {c : Cursor} (constant : Bool) (levels : Nat) :
    value constant (levels + 1) s c =
      if c.current.token = .punctuator .bracketOpen then listOf (value constant levels) s c
    else if c.current.token = .punctuator .braceOpen then
      (ObjectValue.toValue <$> objectOf (value constant levels)) s c
    else atom constant s c := by
  simp only [value, token_bind]
  cases c.current.token with
  | punctuator p =>
    cases p with
    | braceOpen => rfl
    | _ => simp
  | _ => simp

/-- With no level left only a value without brackets is read. -/
theorem value_zero_eq (constant : Bool) : value constant 0 = token >>= fun t =>
    if t = .punctuator .bracketOpen then tooDeep
    else if t = .punctuator .braceOpen then tooDeep
    else atom constant := by
  funext s c
  rw [value_zero, token_bind]
  split <;> split <;> simp_all

/-- With a level left the bracket decides what is read. -/
theorem value_succ_eq (constant : Bool) (levels : Nat) :
    value constant (levels + 1) = token >>= fun t =>
    if t = .punctuator .bracketOpen then listOf (value constant levels)
    else if t = .punctuator .braceOpen then ObjectValue.toValue <$> objectOf (value constant levels)
    else atom constant := by
  funext s c
  rw [value_succ, token_bind]
  split
  · rfl
  · split <;> rfl

theorem yields_value (constant : Bool) (levels : Nat) :
    Yields (value constant levels) Value.form (Value.Conforms constant levels) := by
  induction levels with
  | zero =>
    intro s c c' v hc h
    rw [value_zero] at h
    split at h
    · simp at h
    · exact yields_atom constant hc h
  | succ levels ih =>
    intro s c c' v hc h
    rw [value_succ] at h
    split at h
    · exact yields_listOf ih hc h
    · split at h
      · obtain ⟨o, ho, rfl⟩ := map_eq_ok.1 h
        exact yields_objectOf ih hc ho
      · exact yields_atom constant hc h

theorem yields_objectValue (levels : Nat) :
    Yields (objectValue levels) ObjectValue.form (ObjectValue.Conforms levels) := by
  cases levels with
  | zero =>
    intro s c c' o _ h
    simp [objectValue] at h
  | succ levels => exact yields_objectOf (yields_value false levels)

theorem yields_argument (levels : Nat) :
    Yields (argument levels) Argument.form (Argument.Conforms levels) := by
  intro s c c' a hc h
  simp only [argument, start_bind, bind_eq_ok, located_bind, pure_eq_ok] at h
  obtain ⟨n, m₁, hn, _, m₂, hcolon, v, m₃, hv, rfl, rfl⟩ := h
  obtain ⟨fn, pn, hm₁⟩ := yields_name.step hc hn
  obtain ⟨fcolon, -, hm₂⟩ := (yields_expect .colon).step hm₁ hcolon
  obtain ⟨fv, pv⟩ := yields_value false levels hm₂ hv
  exact ⟨⟨⟨m₁, fn, m₂, fcolon, m₃, fv, rfl⟩, rfl⟩, pn, pv⟩

theorem yields_directive (levels : Nat) :
    Yields (directive levels) Directive.form (Directive.Conforms levels) := by
  intro s c c' d hc h
  simp only [directive, start_bind, bind_eq_ok, located_bind, pure_eq_ok] at h
  obtain ⟨_, m₁, hat, n, m₂, hn, as, m₃, has, rfl, rfl⟩ := h
  obtain ⟨fat, -, hm₁⟩ := (yields_expect .atSign).step hc hat
  obtain ⟨fn, pn, hm₂⟩ := yields_name.step hm₁ hn
  obtain ⟨fas, pas⟩ := yields_optionalBlock .parenOpen .parenClose (yields_argument levels) hm₂ has
  exact ⟨⟨⟨m₁, fat, m₂, fn, m₃, fas, rfl⟩, rfl⟩, pn, pas⟩

theorem yields_directives (levels : Nat) :
    Yields (directives levels) Directive.forms (∀ d ∈ ·, d.Conforms levels) :=
  yields_many _ (yields_directive levels)

end SchemaLang.Parser

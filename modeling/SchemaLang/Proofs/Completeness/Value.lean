import SchemaLang.Parser.Value
import SchemaLang.Proofs.Completeness.Basic
import SchemaLang.Proofs.Soundness.Value

/-!
# What the parsers of values accept

Any value that conforms is read where its form stands, whatever comes behind it: a value shows its
end itself. A directive without arguments must not be followed by a parenthesis, and directives
not by another one.
-/

namespace SchemaLang.Parser

variable {s : Setting} {c c' : Cursor} {levels : Nat}

/-- A value without brackets, which is no level of nesting. -/
theorem accepts_atom {constant : Bool} {v : Value} (hv : v.IsWritable constant)
    (h : v.form.Spans s.locate c c')
    (hopen : c.current.token ≠ .punctuator .bracketOpen ∧
      c.current.token ≠ .punctuator .braceOpen) :
    atom constant s c = .ok (v, c') := by
  rw [atom, start_bind, token_bind]
  cases v with
  | var n loc =>
    obtain ⟨⟨m, ⟨ht, hm⟩, _, fn, rfl⟩, rfl⟩ := h
    obtain ⟨rfl, pn⟩ := hv
    rw [ht]
    change (variableValue) s c = _
    rw [variableValue, start_bind, bind_of_ok (expect_of_moves ht hm),
      bind_of_ok (accepts_name pn fn trivial), located_bind]
    rfl
  | int text loc =>
    obtain ⟨⟨ht, hm⟩, rfl⟩ := h
    rw [ht]
    change (advance >>= _) s c = _
    rw [bind_of_ok (advance_of_moves hm), located_bind]
    rfl
  | float text loc =>
    obtain ⟨⟨ht, hm⟩, rfl⟩ := h
    rw [ht]
    change (advance >>= _) s c = _
    rw [bind_of_ok (advance_of_moves hm), located_bind]
    rfl
  | string text loc =>
    obtain ⟨⟨ht, hm⟩, rfl⟩ := h
    rw [ht]
    change (advance >>= _) s c = _
    rw [bind_of_ok (advance_of_moves hm), located_bind]
    rfl
  | boolean b loc =>
    obtain ⟨⟨ht, hm⟩, rfl⟩ := h
    have hbool : (if b then "true" else "false") = "true" ∨
        (if b then "true" else "false") = "false" := by
      cases b <;> simp
    rw [ht]
    change (ite _ _ _ : Parser Value) s c = _
    rw [if_pos hbool, bind_of_ok (advance_of_moves hm), located_bind]
    cases b <;> rfl
  | enum text loc =>
    obtain ⟨⟨ht, hm⟩, rfl⟩ := h
    obtain ⟨-, htrue, hfalse, hnull⟩ := hv
    rw [ht]
    change (ite _ _ _ : Parser Value) s c = _
    rw [if_neg (not_or.2 ⟨htrue, hfalse⟩), if_neg hnull,
      bind_of_ok (advance_of_moves hm), located_bind]
    rfl
  | list vs loc => exact absurd h.1.choose_spec.1.1 hopen.1
  | object fs loc => exact absurd h.1.choose_spec.1.1 hopen.2

private theorem accepts_listOf {constant : Bool} {item : Parser Value}
    (hi : Accepts item Value.form (Value.Conforms constant levels) fun _ => True) {vs : List Value}
    {loc : Option Loc} (hvs : ∀ v ∈ vs, v.Conforms constant levels)
    (h : (Value.list vs loc).form.Spans s.locate c c') :
    listOf item s c = .ok (.list vs loc, c') := by
  obtain ⟨fvs, rfl⟩ := h
  rw [Value.forms_eq_map] at fvs
  have hblock := accepts_block hi (fun v _ => v.starts_form.imp fun _ ht =>
    ⟨trivial, ht⟩) trivial hvs fvs trivial
  rw [listOf, start_bind, bind_of_ok hblock, located_bind]
  rfl

private theorem accepts_objectFieldOf {constant : Bool} {item : Parser Value}
    (hi : Accepts item Value.form (Value.Conforms constant levels) fun _ => True) :
    Accepts (objectFieldOf item) ObjectFieldOf.form (ObjectFieldOf.Conforms constant levels)
    fun _ => True := by
  intro s c c' f ⟨pn, pv⟩ h _
  obtain ⟨n, v, loc⟩ := f
  obtain ⟨⟨m₁, fn, m₂, ⟨ht, hm⟩, _, fv, rfl⟩, rfl⟩ := h
  rw [objectFieldOf, start_bind, bind_of_ok (accepts_name pn fn trivial),
    bind_of_ok (expect_of_moves ht hm), bind_of_ok (hi pv fv trivial), located_bind]
  rfl

private theorem accepts_objectOf {constant : Bool} {item : Parser Value}
    (hi : Accepts item Value.form (Value.Conforms constant levels) fun _ => True) {o : ObjectValue}
    (ho : ∀ f ∈ o.fields, f.Conforms constant levels) (h : o.form.Spans s.locate c c') :
    objectOf item s c = .ok (o, c') := by
  obtain ⟨fs, loc⟩ := o
  obtain ⟨ffs, rfl⟩ := h
  rw [Value.fieldForms_eq_map] at ffs
  have hblock := accepts_block (accepts_objectFieldOf hi)
    (fun f _ => show f.form.Starts _ from ⟨trivial, by simp⟩) trivial ho ffs trivial
  rw [objectOf, start_bind, bind_of_ok hblock, located_bind]
  rfl

/-- The first token shows whether a value is a list, an object or neither. -/
theorem value_cases {v : Value} (h : v.form.Spans s.locate c c') :
    (∃ vs loc, v = .list vs loc ∧ c.current.token = .punctuator .bracketOpen) ∨
      (∃ fs loc, v = .object fs loc ∧ c.current.token = .punctuator .braceOpen) ∨
      c.current.token ≠ .punctuator .bracketOpen ∧ c.current.token ≠ .punctuator .braceOpen := by
  cases v with
  | list vs loc => exact .inl ⟨vs, loc, rfl, h.1.choose_spec.1.1⟩
  | object fs loc => exact .inr (.inl ⟨fs, loc, rfl, h.1.choose_spec.1.1⟩)
  | var n loc =>
    obtain ⟨⟨_, ⟨ht, -⟩, -⟩, -⟩ := h
    exact .inr (.inr (by simp [ht]))
  | _ =>
    obtain ⟨⟨ht, -⟩, -⟩ := h
    exact .inr (.inr (by simp [ht]))

theorem accepts_value (constant : Bool) (levels : Nat) :
    Accepts (value constant levels) Value.form (Value.Conforms constant levels) fun _ => True := by
  induction levels with
  | zero =>
    intro s c c' v ⟨hv, hdepth⟩ h _
    rcases value_cases h with ⟨vs, loc, rfl, -⟩ | ⟨fs, loc, rfl, -⟩ | hopen
    · exact absurd hdepth (Nat.not_succ_le_zero _)
    · exact absurd hdepth (Nat.not_succ_le_zero _)
    · rw [value_zero, if_neg (not_or.2 hopen)]
      exact accepts_atom hv h hopen
  | succ levels ih =>
    intro s c c' v hv h _
    rcases value_cases h with ⟨vs, loc, rfl, ht⟩ | ⟨fs, loc, rfl, ht⟩ | hopen
    · rw [value_succ, if_pos ht]
      exact accepts_listOf ih (Value.list_conforms.1 hv) h
    · rw [value_succ, if_neg (by simp [ht]), if_pos ht]
      exact map_eq_ok.2 ⟨⟨fs, loc⟩, accepts_objectOf ih (Value.object_conforms.1 hv) h, rfl⟩
    · rw [value_succ, if_neg hopen.1, if_neg hopen.2]
      exact accepts_atom hv.1 h hopen

theorem accepts_objectValue (levels : Nat) :
    Accepts (objectValue levels) ObjectValue.form (ObjectValue.Conforms levels) fun _ => True := by
  intro s c c' o ho h _
  cases levels with
  | zero => exact absurd ho.2 (Nat.not_succ_le_zero _)
  | succ levels =>
    exact accepts_objectOf (accepts_value false levels) (Value.object_conforms.1 ho) h

private theorem accepts_argument (levels : Nat) :
    Accepts (argument levels) Argument.form (Argument.Conforms levels) fun _ => True := by
  intro s c c' a ⟨pn, pv⟩ h _
  obtain ⟨n, v, loc⟩ := a
  obtain ⟨⟨m₁, fn, m₂, ⟨ht, hm⟩, _, fv, rfl⟩, rfl⟩ := h
  rw [argument, start_bind, bind_of_ok (accepts_name pn fn trivial),
    bind_of_ok (expect_of_moves ht hm), bind_of_ok (accepts_value false levels pv fv trivial),
    located_bind]
  rfl

private theorem accepts_directive (levels : Nat) :
    Accepts (directive levels) Directive.form (Directive.Conforms levels)
      (· ≠ .punctuator .parenOpen) := by
  intro s c c' d ⟨pn, pas⟩ h hfollow
  obtain ⟨n, as, loc⟩ := d
  obtain ⟨⟨m₁, ⟨ht, hm⟩, m₂, fn, _, fas, rfl⟩, rfl⟩ := h
  have hblock := accepts_optionalBlock (accepts_argument levels)
    (fun a _ => show a.form.Starts _ from ⟨trivial, by simp⟩) trivial pas fas hfollow
  rw [directive, start_bind, bind_of_ok (expect_of_moves ht hm),
    bind_of_ok (accepts_name pn fn trivial), bind_of_ok hblock, located_bind]
  rfl

/-- What may stand behind directives. -/
def EndsDirectives (t : Token) : Prop := t ≠ .punctuator .parenOpen ∧ t ≠ .punctuator .atSign

theorem accepts_directives (levels : Nat) :
    Accepts (directives levels) Directive.forms (∀ d ∈ ·, d.Conforms levels) EndsDirectives := by
  intro s c c' ds pds h ⟨hparen, hat⟩
  exact accepts_many (accepts_directive levels) (fun d _ =>
    show d.form.Starts _ from ⟨by simp, by simp⟩) pds h
    ⟨hparen, by simpa using hat⟩

end SchemaLang.Parser

import SchemaLang.Proofs.Parsing.Steps

/-!
# What repetitions answer

If an item is answered only where its form stands, then many items are answered only where the forms
of all of them stand, with the punctuators between and around them.
-/

namespace SchemaLang.Parser

variable {α : Type}

theorem yields_expect (p : Punctuator) :
    Yields (expect p) (fun _ => .punctuator p) (fun _ => True) := by
  intro s c c' _ hc h
  exact ⟨moves_of_expect hc h, trivial⟩

theorem yields_keyword (word : String) :
    Yields (keyword word) (fun _ => .word word) (fun _ => True) := by
  intro s c c' _ hc h
  exact ⟨moves_of_keyword hc h, trivial⟩

section

variable {item : Parser α} {form : α → Form} {P : α → Prop}

private theorem yields_untilClose (close : Punctuator) (hi : Yields item form P) (n : Nat) :
    Yields (untilClose close item n) (fun xs => .all (xs.map form ++ [.punctuator close]))
      (∀ x ∈ ·, P x) := by
  induction n with
  | zero =>
    intro s c c' xs _ h
    simp [untilClose] at h
  | succ n ih =>
    intro s c c' xs hc h
    rw [untilClose] at h
    obtain ⟨m, fclose, -, h⟩ | h := skip_bind_cases hc h
    · obtain ⟨rfl, rfl⟩ := pure_eq_ok.1 h
      exact ⟨⟨m, fclose, rfl⟩, by simp⟩
    · simp only [Bool.false_eq_true, if_false, bind_eq_ok, pure_eq_ok] at h
      obtain ⟨x, m, hx, ys, _, hys, rfl, rfl⟩ := h
      obtain ⟨fx, px, hm⟩ := hi.step hc hx
      obtain ⟨fys, pys⟩ := ih hm hys
      exact ⟨⟨m, fx, fys⟩, List.forall_mem_cons.2 ⟨px, pys⟩⟩

theorem yields_block (before after : Punctuator) (hi : Yields item form P) :
    Yields (block before after item) (fun xs => .block before after (xs.map form))
      (∀ x ∈ ·, P x) := by
  intro s c c' xs hc h
  simp only [block, bind_eq_ok, remaining_bind] at h
  obtain ⟨_, m, hbefore, h⟩ := h
  obtain ⟨fbefore, -, hm⟩ := (yields_expect before).step hc hbefore
  obtain ⟨fxs, pxs⟩ := yields_untilClose after hi _ hm h
  obtain ⟨m', fitems, fafter⟩ := Form.spans_all_append.1 fxs
  exact ⟨⟨m, fbefore, m', fitems, fafter⟩, pxs⟩

theorem yields_block1 (before after : Punctuator) (hi : Yields item form P) :
    Yields (block1 before after item) (fun xs => .block before after (xs.map form))
      (fun xs => xs ≠ [] ∧ ∀ x ∈ xs, P x) := by
  intro s c c' xs hc h
  simp only [block1, bind_eq_ok, remaining_bind, pure_eq_ok] at h
  obtain ⟨_, m₁, hbefore, x, m₂, hx, ys, _, hys, rfl, rfl⟩ := h
  obtain ⟨fbefore, -, hm₁⟩ := (yields_expect before).step hc hbefore
  obtain ⟨fx, px, hm₂⟩ := hi.step hm₁ hx
  obtain ⟨fys, pys⟩ := yields_untilClose after hi _ hm₂ hys
  obtain ⟨m₃, fitems, fafter⟩ := Form.spans_all_append.1 fys
  exact ⟨⟨m₁, fbefore, m₃, ⟨m₂, fx, fitems⟩, fafter⟩, List.cons_ne_nil _ _,
    List.forall_mem_cons.2 ⟨px, pys⟩⟩

theorem yields_optionalBlock (before after : Punctuator) (hi : Yields item form P) :
    Yields (optionalBlock before after item) (fun xs => .optionalBlock before after (xs.map form))
      (∀ x ∈ ·, P x) := by
  intro s c c' xs hc h
  simp only [optionalBlock, peek_bind, decide_eq_true_eq] at h
  split at h
  · obtain ⟨fxs, hne, pxs⟩ := yields_block1 before after hi hc h
    obtain ⟨x, xs, rfl⟩ := List.exists_cons_of_ne_nil hne
    exact ⟨fxs, pxs⟩
  · obtain ⟨rfl, rfl⟩ := pure_eq_ok.1 h
    exact ⟨rfl, by simp⟩

theorem yields_whileNext (starts : Token → Bool) (hi : Yields item form P) (n : Nat) :
    Yields (whileNext starts item n) (fun xs => .all (xs.map form)) (∀ x ∈ ·, P x) := by
  induction n with
  | zero =>
    intro s c c' xs _ h
    obtain ⟨rfl, rfl⟩ := pure_eq_ok.1 h
    exact ⟨rfl, by simp⟩
  | succ n ih =>
    intro s c c' xs hc h
    simp only [whileNext, token_bind] at h
    split at h
    · simp only [bind_eq_ok, pure_eq_ok] at h
      obtain ⟨x, m, hx, ys, _, hys, rfl, rfl⟩ := h
      obtain ⟨fx, px, hm⟩ := hi.step hc hx
      obtain ⟨fys, pys⟩ := ih hm hys
      exact ⟨⟨m, fx, fys⟩, List.forall_mem_cons.2 ⟨px, pys⟩⟩
    · obtain ⟨rfl, rfl⟩ := pure_eq_ok.1 h
      exact ⟨rfl, by simp⟩

theorem yields_many (starts : Token → Bool) (hi : Yields item form P) :
    Yields (many starts item) (fun xs => .all (xs.map form)) (∀ x ∈ ·, P x) := by
  intro s c c' xs hc h
  simp only [many, remaining_bind] at h
  exact yields_whileNext starts hi _ hc h

/-- One item at least is read where one starts. -/
theorem ne_nil_of_many {starts : Token → Bool} {s : Setting} {c c' : Cursor} {xs : List α}
    (ht : starts c.current.token) (h : many starts item s c = .ok (xs, c')) : xs ≠ [] := by
  simp only [many, remaining_bind, whileNext, token_bind, ht, if_true, bind_eq_ok, pure_eq_ok] at h
  obtain ⟨x, m, -, ys, _, -, rfl, -⟩ := h
  exact List.cons_ne_nil _ _

private theorem yields_eachAfter (p : Punctuator) (hi : Yields item form P) (n : Nat) :
    Yields (eachAfter p item n) (fun xs => .all ((xs.map form).map (.seq (.punctuator p))))
      (∀ x ∈ ·, P x) := by
  induction n with
  | zero =>
    intro s c c' xs _ h
    obtain ⟨rfl, rfl⟩ := pure_eq_ok.1 h
    exact ⟨rfl, by simp⟩
  | succ n ih =>
    intro s c c' xs hc h
    rw [eachAfter] at h
    obtain ⟨m, fmark, hm, h⟩ | h := skip_bind_cases hc h
    · simp only [if_true, bind_eq_ok, pure_eq_ok] at h
      obtain ⟨x, m', hx, ys, _, hys, rfl, rfl⟩ := h
      obtain ⟨fx, px, hm'⟩ := hi.step hm hx
      obtain ⟨fys, pys⟩ := ih hm' hys
      exact ⟨⟨m', ⟨m, fmark, fx⟩, fys⟩, List.forall_mem_cons.2 ⟨px, pys⟩⟩
    · obtain ⟨rfl, rfl⟩ := pure_eq_ok.1 h
      exact ⟨rfl, by simp⟩

theorem yields_separatedBy (p : Punctuator) (hi : Yields item form P) :
    Yields (separatedBy p item) (fun xs => .separated p (xs.map form)) (fun xs => xs ≠ [] ∧
      ∀ x ∈ xs, P x) := by
  intro s c c' xs hc h
  simp only [separatedBy, bind_eq_ok, remaining_bind, pure_eq_ok] at h
  obtain ⟨x, m, hx, ys, _, hys, rfl, rfl⟩ := h
  obtain ⟨fx, px, hm⟩ := hi.step hc hx
  obtain ⟨fys, pys⟩ := yields_eachAfter p hi _ hm hys
  exact ⟨⟨m, fx, fys⟩, List.cons_ne_nil _ _, List.forall_mem_cons.2 ⟨px, pys⟩⟩

end

theorem yields_name : Yields name Name.form Name.Conforms := by
  intro s c c' n hc h
  simp only [name, start_bind, token_bind] at h
  cases ht : c.current.token with
  | name value =>
    simp only [ht, bind_eq_ok, located_bind, pure_eq_ok] at h
    obtain ⟨_, m, hadv, rfl, rfl⟩ := h
    have hvalid := hc.current.token
    rw [ht] at hvalid
    exact ⟨⟨⟨ht, moves_of_advance hc (by simp [ht]) hadv⟩, rfl⟩, hvalid⟩
  | _ => simp [ht] at h

/-- A name with the description in front of it, which no token of its own shows. -/
theorem yields_described {s : Setting} {c c' : Cursor} {n : Name} (hc : c.IsSound s)
    (h : name s c = .ok (n, c')) : ((n.describedForm c.current.description).Spans s.locate c c' ∧
      ConformsDescription c.current.description) ∧ n.Conforms ∧ c'.IsSound s := by
  obtain ⟨⟨fn, hloc⟩, pn, hc'⟩ := yields_name.step hc h
  exact ⟨⟨⟨⟨rfl, fn⟩, hloc⟩, hc.current.description⟩, pn, hc'⟩

end SchemaLang.Parser

import SchemaLang.Proofs.Parsing.Steps

/-!
# What repetitions accept

If an item is accepted wherever its form stands, then many items are accepted wherever the forms of
all of them stand, provided that the token behind an item shows whether another one follows. The
lexemes that are left bound how many items there can be.
-/

namespace SchemaLang.Parser

variable {α : Type} {s : Setting} {c c' : Cursor}

section

variable {item : Parser α} {form : α → Form} {P : α → Prop} {follow : Token → Prop} {xs : List α}

private theorem accepts_untilClose {close : Punctuator} (hi : Accepts item form P follow)
    (hstart : ∀ x, P x → (form x).Starts fun t => follow t ∧ t ≠ .punctuator close)
    (hclose : follow (.punctuator close)) (hxs : ∀ x ∈ xs, P x) {n : Nat} (hn : xs.length < n)
    (h : (Form.all (xs.map form ++ [.punctuator close])).Spans s.locate c c') :
    untilClose close item n s c = .ok (xs, c') := by
  induction xs generalizing c n with
  | nil =>
    obtain ⟨n, rfl⟩ : ∃ k, n = k + 1 := ⟨n - 1, by simp at hn; omega⟩
    obtain ⟨_, ⟨ht, hm⟩, rfl⟩ := h
    rw [untilClose, skip_bind, if_pos ht, bind_of_ok (advance_of_moves hm)]
    rfl
  | cons x xs ih =>
    obtain ⟨n, rfl⟩ : ∃ k, n = k + 1 := ⟨n - 1, by simp at hn; omega⟩
    obtain ⟨hx, hxs⟩ := List.forall_mem_cons.1 hxs
    obtain ⟨m, fx, fxs⟩ := h
    have hne := ((hstart x hx).of_spans fx).1.2
    have hfollow : follow m.current.token := by
      cases xs with
      | nil => rw [fxs.choose_spec.1.1]; exact hclose
      | cons y ys =>
        obtain ⟨m', fy, -⟩ := fxs
        exact ((hstart y (hxs y List.mem_cons_self)).of_spans fy).1.1
    rw [untilClose, skip_bind, if_neg hne, if_neg Bool.false_ne_true, bind_of_ok (hi hx fx hfollow),
      bind_of_ok (ih hxs (by simpa using hn) fxs)]
    rfl

/-- Many items and the closing punctuator are no more than the lexemes that are left. -/
theorem length_lt_of_spans_close {close : Punctuator} {Q : Token → Prop}
    {locate : Nat → Nat → Option Loc} (hstart : ∀ x ∈ xs, (form x).Starts Q)
    (h : (Form.all (xs.map form ++ [.punctuator close])).Spans locate c c') :
    xs.length < c.rest.length + 1 := by
  have hall : ∀ a ∈ xs.map form ++ [.punctuator close], a.Starts fun _ => True := by
    intro a ha
    rcases List.mem_append.1 ha with ha | ha
    · obtain ⟨x, hx, rfl⟩ := List.mem_map.1 ha
      exact (hstart x hx).imp fun _ _ => trivial
    · rw [List.mem_singleton.1 ha]
      exact trivial
  have hle := Form.length_of_spans_all hall h
  simp only [List.length_append, List.length_map, List.length_singleton] at hle
  omega

theorem accepts_block {before after : Punctuator} (hi : Accepts item form P follow)
    (hstart : ∀ x, P x → (form x).Starts fun t => follow t ∧ t ≠ .punctuator after)
    (hafter : follow (.punctuator after)) :
    Accepts (block before after item) (fun xs => .block before after (xs.map form)) (∀ x ∈ ·, P x)
      (fun _ => True) := by
  intro s c c' xs hxs h _
  obtain ⟨m, ⟨ht, hm⟩, m', fxs, fafter⟩ := h
  have fall := Form.spans_all_append.2 ⟨m', fxs, fafter⟩
  have hn := length_lt_of_spans_close (fun x hx => hstart x (hxs x hx)) fall
  rw [block, bind_of_ok (expect_of_moves ht hm), remaining_bind]
  exact accepts_untilClose hi hstart hafter hxs hn fall

theorem accepts_block1 {before after : Punctuator} (hi : Accepts item form P follow)
    (hstart : ∀ x, P x → (form x).Starts fun t => follow t ∧ t ≠ .punctuator after)
    (hafter : follow (.punctuator after)) :
    Accepts (block1 before after item) (fun xs => .block before after (xs.map form))
      (fun xs => xs ≠ [] ∧ ∀ x ∈ xs, P x) (fun _ => True) := by
  intro s c c' xs ⟨hne, hxs⟩ h _
  obtain ⟨x, xs, rfl⟩ := List.exists_cons_of_ne_nil hne
  obtain ⟨hx, hxs⟩ := List.forall_mem_cons.1 hxs
  obtain ⟨m, ⟨ht, hm⟩, m', ⟨m'', fx, fxs⟩, fafter⟩ := h
  have fall := Form.spans_all_append.2 ⟨m', fxs, fafter⟩
  have hn := length_lt_of_spans_close (fun x hx => hstart x (hxs x hx)) fall
  have hfollow : follow m''.current.token := by
    cases xs with
    | nil => rw [fall.choose_spec.1.1]; exact hafter
    | cons y ys =>
      obtain ⟨_, fy, -⟩ := fall
      exact ((hstart y (hxs y List.mem_cons_self)).of_spans fy).1.1
  rw [block1, bind_of_ok (expect_of_moves ht hm), bind_of_ok (hi hx fx hfollow), remaining_bind,
    bind_of_ok (accepts_untilClose hi hstart hafter hxs hn fall)]
  rfl

theorem accepts_optionalBlock {before after : Punctuator} (hi : Accepts item form P follow)
    (hstart : ∀ x, P x → (form x).Starts fun t => follow t ∧ t ≠ .punctuator after)
    (hafter : follow (.punctuator after)) :
    Accepts (optionalBlock before after item) (fun xs =>
      .optionalBlock before after (xs.map form)) (∀ x ∈ ·, P x) (· ≠ .punctuator before) := by
  intro s c c' xs hxs h hfollow
  rw [optionalBlock, peek_bind]
  cases xs with
  | nil =>
    obtain rfl := h
    rw [if_neg (by simpa using hfollow)]
    rfl
  | cons x xs =>
    have hopen : c.current.token = .punctuator before := by
      obtain ⟨_, ⟨ht, -⟩, -⟩ := h
      exact ht
    rw [if_pos (by simpa using hopen)]
    exact accepts_block1 hi hstart hafter ⟨List.cons_ne_nil _ _, hxs⟩ h trivial

private theorem accepts_whileNext {starts : Token → Bool} (hi : Accepts item form P follow)
    (hstart : ∀ x, P x → (form x).Starts fun t => follow t ∧ starts t)
    (hxs : ∀ x ∈ xs, P x) {n : Nat} (hn : xs.length ≤ n)
    (h : (Form.all (xs.map form)).Spans s.locate c c')
    (hend : follow c'.current.token ∧ starts c'.current.token = false) :
    whileNext starts item n s c = .ok (xs, c') := by
  induction xs generalizing c n with
  | nil =>
    obtain rfl := h
    cases n with
    | zero => rfl
    | succ n =>
      rw [whileNext, token_bind, if_neg (by simp [hend.2])]
      rfl
  | cons x xs ih =>
    obtain ⟨n, rfl⟩ : ∃ k, n = k + 1 := ⟨n - 1, by simp at hn; omega⟩
    obtain ⟨hx, hxs⟩ := List.forall_mem_cons.1 hxs
    obtain ⟨m, fx, fxs⟩ := h
    have hstarts := ((hstart x hx).of_spans fx).1.2
    -- Behind an item stands the next one, or what stands behind them all.
    have hfollow : follow m.current.token := by
      cases xs with
      | nil =>
        obtain rfl := fxs
        exact hend.1
      | cons y ys =>
        obtain ⟨_, fy, -⟩ := fxs
        exact ((hstart y (hxs y List.mem_cons_self)).of_spans fy).1.1
    rw [whileNext, token_bind, if_pos hstarts, bind_of_ok (hi hx fx hfollow),
      bind_of_ok (ih hxs (by simpa using hn) fxs)]
    rfl

theorem accepts_many {starts : Token → Bool} (hi : Accepts item form P follow)
    (hstart : ∀ x, P x → (form x).Starts fun t => follow t ∧ starts t) :
    Accepts (many starts item) (fun xs => .all (xs.map form)) (∀ x ∈ ·, P x)
      (fun t => follow t ∧ starts t = false) := by
  intro s c c' xs hxs h hend
  have hall : ∀ a ∈ xs.map form, a.Starts fun t => follow t ∧ starts t :=
    List.forall_mem_map.2 fun x hx => hstart x (hxs x hx)
  have hle := Form.length_of_spans_all hall h
  rw [List.length_map] at hle
  rw [many, remaining_bind]
  exact accepts_whileNext hi hstart hxs (by omega) h hend

private theorem accepts_eachAfter {p : Punctuator} (hi : Accepts item form P follow)
    (hp : follow (.punctuator p)) (hxs : ∀ x ∈ xs, P x) {n : Nat} (hn : xs.length ≤ n)
    (h : (Form.all ((xs.map form).map (.seq (.punctuator p)))).Spans s.locate c c')
    (hend : follow c'.current.token ∧ c'.current.token ≠ .punctuator p) :
    eachAfter p item n s c = .ok (xs, c') ∧ follow c.current.token := by
  induction xs generalizing c n with
  | nil =>
    obtain rfl := h
    refine ⟨?_, hend.1⟩
    cases n with
    | zero => rfl
    | succ n =>
      rw [eachAfter, skip_bind, if_neg hend.2]
      rfl
  | cons x xs ih =>
    obtain ⟨n, rfl⟩ : ∃ k, n = k + 1 := ⟨n - 1, by simp at hn; omega⟩
    obtain ⟨hx, hxs⟩ := List.forall_mem_cons.1 hxs
    obtain ⟨m, ⟨m', ⟨ht, hm⟩, fx⟩, fxs⟩ := h
    obtain ⟨hrest, hfollow⟩ := ih hxs (Nat.le_of_succ_le_succ hn) fxs
    refine ⟨?_, by rw [ht]; exact hp⟩
    rw [eachAfter, skip_bind, if_pos ht, bind_of_ok (advance_of_moves hm), if_pos rfl,
      bind_of_ok (hi hx fx hfollow), bind_of_ok hrest]
    rfl

theorem accepts_separatedBy {p : Punctuator} (hi : Accepts item form P follow)
    (hp : follow (.punctuator p)) :
    Accepts (separatedBy p item) (fun xs => .separated p (xs.map form)) (fun xs => xs ≠
      [] ∧ ∀ x ∈ xs, P x) (fun t => follow t ∧ t ≠ .punctuator p) := by
  intro s c c' xs ⟨hne, hxs⟩ h hend
  obtain ⟨x, xs, rfl⟩ := List.exists_cons_of_ne_nil hne
  obtain ⟨hx, hxs⟩ := List.forall_mem_cons.1 hxs
  obtain ⟨m, fx, fxs⟩ := h
  have hall : ∀ a ∈ (xs.map form).map (Form.seq (.punctuator p)), a.Starts fun _ => True :=
    List.forall_mem_map.2 fun _ _ => trivial
  have hle := Form.length_of_spans_all hall fxs
  simp only [List.length_map] at hle
  obtain ⟨hrest, hfollow⟩ :=
    accepts_eachAfter hi hp hxs (n := m.rest.length + 1) (by omega) fxs hend
  rw [separatedBy, bind_of_ok (hi hx fx hfollow), remaining_bind, bind_of_ok hrest]
  rfl

end

theorem accepts_name : Accepts name Name.form Name.Conforms (fun _ => True) := by
  intro s c c' n _ h _
  obtain ⟨⟨ht, hm⟩, hloc⟩ := h
  rw [name, start_bind, token_bind, ht]
  change (advance >>= _) s c = _
  rw [bind_of_ok (advance_of_moves hm), located_bind, ← hloc]
  rfl

/-- A name that a description belongs to is read as a name. -/
theorem accepts_described {d : Option String} {n : Name} (hn : n.Conforms)
    (h : (n.describedForm d).Spans s.locate c c') :
    c.current.description = d ∧ name s c = .ok (n, c') := by
  obtain ⟨⟨hd, fn⟩, hloc⟩ := h
  exact ⟨hd, accepts_name hn ⟨fn, hloc⟩ trivial⟩

end SchemaLang.Parser

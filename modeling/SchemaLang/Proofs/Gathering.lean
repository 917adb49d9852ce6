import SchemaLang.Proofs.Covering
import SchemaLang.Proofs.Printing.Lexes

/-!
# Lexemes and their tokens

A lexeme is made of the tokens of its description and its own. Tokens up to one that is no
description are those of the lexemes they are gathered into, and tokens that belong to lexemes are
gathered into these. Since each valid token can be written on a line of its own, there is a text for
any list of them.
-/

namespace SchemaLang

namespace Lexeme

/-- The lines of a description give the description back. -/
theorem joinLines_splitOn (text : String) :
    joinLines ((text.toList.splitOn '\n').map String.ofList) = some text := by
  have lines : (text.toList.splitOn '\n').map String.ofList ≠ [] := by
    simp [List.splitOn_ne_nil]
  have joined : "\n".intercalate ((text.toList.splitOn '\n').map String.ofList) = text := by
    rw [← String.toList_inj, String.toList_intercalate, List.map_map]
    have same : String.toList ∘ String.ofList = id := funext fun _ => String.toList_ofList
    rw [same, List.map_id]
    exact List.intercalate_splitOn '\n'
  cases h : (text.toList.splitOn '\n').map String.ofList with
  | nil => exact absurd h lines
  | cons line rest =>
    rw [h] at joined
    exact congrArg some joined

/-- A description that is read before a token is attached to it. -/
theorem gather_lines {t : Token} (ht : t.isSignificant = true) :
    ∀ (lines pending : List String) {rs : List Reading} {us : List Token},
      rs.map Reading.token = lines.map .description ++ t :: us →
      ∃ span rs', rs'.map Reading.token = us ∧
        gather pending rs = ⟨t, span, joinLines (pending ++ lines)⟩ :: gather [] rs' := by
  intro lines
  induction lines with
  | nil =>
    intro pending rs us h
    obtain ⟨r, rs, rfl, hr, hrs⟩ := List.map_eq_cons_iff.1 h
    obtain ⟨token, span, gap, rest⟩ := r
    obtain rfl : token = t := hr
    refine ⟨span, rs, hrs, ?_⟩
    rw [List.append_nil]
    cases token with
    | description line => exact absurd ht (by simp [Token.isSignificant])
    | _ => rfl
  | cons line lines ih =>
    intro pending rs us h
    obtain ⟨r, rs, rfl, hr, hrs⟩ := List.map_eq_cons_iff.1 h
    obtain ⟨token, span, gap, rest⟩ := r
    obtain rfl : token = .description line := hr
    obtain ⟨span, rs', hrs', hgather⟩ := ih (pending ++ [line]) hrs
    refine ⟨span, rs', hrs', ?_⟩
    rw [List.append_assoc] at hgather
    exact hgather

theorem gather_descriptionTokens {t : Token} (ht : t.isSignificant = true) {d : Option String}
    {rs : List Reading} {us : List Token}
    (h : rs.map Reading.token = descriptionTokens d ++ t :: us) :
    ∃ span rs', rs'.map Reading.token = us ∧ gather [] rs = ⟨t, span, d⟩ :: gather [] rs' := by
  cases d with
  | none => exact gather_lines ht [] [] h
  | some text =>
    have lines : descriptionTokens (some text) =
        ((text.toList.splitOn '\n').map String.ofList).map Token.description := List.map_map.symm
    rw [lines] at h
    obtain ⟨span, rs', hrs', hgather⟩ := gather_lines ht _ [] h
    rw [List.nil_append, joinLines_splitOn] at hgather
    exact ⟨span, rs', hrs', hgather⟩

/-- An end of the input that was read is a lexeme. -/
theorem gather_ne_nil {rs : List Reading} (h : .endOfInput ∈ rs.map Reading.token)
    (pending : List String) : gather pending rs ≠ [] := by
  intro hnil
  have tokens := map_token_gather pending rs
  have last : .endOfInput ∈ (rs.map Reading.token).filter fun t => !t.isDescription :=
    List.mem_filter.2 ⟨h, rfl⟩
  rw [← tokens, hnil] at last
  exact List.not_mem_nil last

/-- The tokens of a lexeme: one for each line of its description, and its own. -/
def tokens (l : Lexeme) : List Token := descriptionTokens l.description ++ [l.token]

private theorem descriptionTokens_joinLines {lines : List String}
    (h : ∀ line ∈ lines, '\n' ∉ line.toList) :
    descriptionTokens (joinLines lines) = lines.map .description := by
  cases lines with
  | nil => rfl
  | cons line lines =>
    have split := splitOn_toList_intercalate (List.cons_ne_nil line lines) h
    rw [joinLines, descriptionTokens, split, List.map_map]
    · exact List.map_congr_left fun l _ => congrArg Token.description String.ofList_toList
    · exact List.cons_ne_nil line lines

/-- Tokens up to one that is no description are those of the lexemes they are gathered into. -/
theorem flatMap_tokens_gather (pending : List String) {xs : List Reading} {r : Reading}
    (hpending : ∀ line ∈ pending, '\n' ∉ line.toList) (hxs : ∀ x ∈ xs, x.token.IsValid)
    (hr : r.token.isDescription = false) :
    (gather pending (xs ++ [r])).flatMap tokens =
      pending.map .description ++ (xs ++ [r]).map Reading.token := by
  induction xs generalizing pending with
  | nil =>
    rw [List.nil_append, gather_cons hr, gather]
    simp [tokens, descriptionTokens_joinLines hpending]
  | cons x xs ih =>
    obtain ⟨hx, hrest⟩ := List.forall_mem_cons.1 hxs
    cases hd : x.token.isDescription with
    | true =>
      obtain ⟨token, span, gap, rest⟩ := x
      cases token with
      | description line =>
        have lines : ∀ l ∈ pending ++ [line], '\n' ∉ l.toList :=
          List.forall_mem_append.2 ⟨hpending, List.forall_mem_singleton.2 hx.2⟩
        refine (ih _ lines hrest).trans ?_
        simp
      | _ => exact absurd hd Bool.false_ne_true
    | false =>
      rw [List.cons_append, gather_cons hd, List.flatMap_cons, ih _ (by simp) hrest]
      simp [tokens, descriptionTokens_joinLines hpending]

/-- Tokens that belong to lexemes are gathered into lexemes like these. -/
theorem gather_flatMap_tokens {ls : List Lexeme} (hls : ∀ l ∈ ls, l.token.isSignificant = true)
    {rs : List Reading} {us : List Token} (h : rs.map Reading.token = ls.flatMap tokens ++ us) :
    ∃ ls' rs', gather [] rs = ls' ++ gather [] rs' ∧ List.Forall₂ Alike ls ls' ∧
    rs'.map Reading.token = us := by
  induction ls generalizing rs with
  | nil => exact ⟨[], rs, rfl, .nil, h⟩
  | cons l ls ih =>
    obtain ⟨hl, hls⟩ := List.forall_mem_cons.1 hls
    rw [List.flatMap_cons, tokens, List.append_assoc, List.append_assoc] at h
    obtain ⟨span, rs', hrs', hgather⟩ := gather_descriptionTokens hl h
    obtain ⟨ls', rs'', hrest, halike, hus⟩ := ih hls hrs'
    refine ⟨⟨l.token, span, l.description⟩ :: ls', rs'', ?_, .cons ⟨rfl, rfl⟩ halike, hus⟩
    rw [hgather, hrest, List.cons_append]

/-- The tokens of a valid lexeme can be written. -/
theorem IsValid.tokens {l : Lexeme} (h : l.IsValid) : ∀ t ∈ l.tokens, t.IsValid := by
  refine List.forall_mem_append.2 ⟨fun t ht => ?_, List.forall_mem_singleton.2 h.token⟩
  have description := h.description
  cases hd : l.description with
  | none =>
    rw [hd] at ht
    exact absurd ht List.not_mem_nil
  | some text =>
    rw [hd] at ht description
    obtain ⟨line, hline, rfl⟩ := List.mem_map.1 ht
    simp only [Token.IsValid, String.toList_ofList]
    exact ⟨description text rfl line hline, Text.not_mem_of_mem_splitOn hline⟩

/-- The end of the input is no token of a lexeme of the grammar. -/
theorem ne_endOfInput_of_mem_tokens {l : Lexeme} (h : l.token.isSignificant = true) :
    ∀ t ∈ l.tokens, t ≠ .endOfInput := by
  refine List.forall_mem_append.2 ⟨fun t ht => ?_, List.forall_mem_singleton.2 ?_⟩
  · cases hd : l.description with
    | none =>
      rw [hd] at ht
      exact absurd ht List.not_mem_nil
    | some text =>
      rw [hd] at ht
      obtain ⟨line, -, rfl⟩ := List.mem_map.1 ht
      exact nofun
  · intro hend
    rw [hend] at h
    exact absurd h (by decide)

end Lexeme

/-- Names and numbers stop at the end of a line. -/
theorem Breaks.lineFeed (cs : List Char) : Breaks ('\n' :: cs) := by
  rintro c ⟨⟩
  decide

/-- A token can be written on a line of its own. -/
theorem LexesWith.exists_cons {t : Token} (ht : t.IsValid) (hend : t ≠ .endOfInput) {cs : List Char}
    {ts : List Token} (h : LexesWith [] cs ts) : ∃ cs', LexesWith [] cs' (t :: ts) := by
  have behind : LexesWith [] ('\n' :: cs) ts := h.separator rfl
  cases t with
  | punctuator p => exact ⟨_, .punctuator p (fun _ => by simp) behind⟩
  | name text => exact ⟨_, .name ht (.lineFeed cs) behind⟩
  | int text =>
    have number : IsNumber text false := ht
    exact ⟨_, .number number (.lineFeed cs) behind⟩
  | float text =>
    have number : IsNumber text true := ht
    exact ⟨_, .number number (.lineFeed cs) behind⟩
  | string value => exact ⟨_, .quote value behind⟩
  | endOfInput => exact absurd rfl hend
  | description text =>
    obtain ⟨⟨htrim, hreturn⟩, hfeed⟩ := ht
    have unbroken := Text.fromReturn_of_not_mem hreturn
    have whole := Text.beforeReturn_append_fromReturn text.toList
    rw [unbroken, List.append_nil] at whole
    have line := LexesWith.description hfeed (by rw [unbroken]; simp) h
    rw [whole, htrim, String.ofList_toList] at line
    exact ⟨_, line⟩

/-- For valid tokens there is a text. -/
theorem exists_lexes {ts : List Token} (h : ∀ t ∈ ts, t.IsValid ∧ t ≠ .endOfInput) :
    ∃ cs, LexesWith [] cs ts := by
  induction ts with
  | nil => exact ⟨[], lexes_nil⟩
  | cons t ts ih =>
    obtain ⟨⟨ht, hend⟩, hts⟩ := List.forall_mem_cons.1 h
    obtain ⟨cs, hcs⟩ := ih hts
    exact hcs.exists_cons ht hend

end SchemaLang

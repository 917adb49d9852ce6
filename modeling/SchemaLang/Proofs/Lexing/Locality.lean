import SchemaLang.Proofs.Lexing.Cases
import SchemaLang.Proofs.Lexing.Gaps
import SchemaLang.Proofs.Number

/-!
# Tokens are read from their own text

Whether a token ends shows at the character behind it, and the end of the text ends every token. So
a token is read alike in front of two texts that start alike, and in front of nothing.
-/

namespace SchemaLang

/-- The text is empty or starts like the other one. -/
def StartsLike (rest' rest : List Char) : Prop := ∀ c ∈ rest'.head?, c ∈ rest.head?

namespace StartsLike

variable {rest rest' : List Char}

theorem nil (rest : List Char) : StartsLike [] rest := by
  intro c hc
  exact nomatch hc

theorem append (h : StartsLike rest' rest) (front : List Char) :
    StartsLike (front ++ rest') (front ++ rest) := by
  cases front with
  | nil => exact h
  | cons c front => exact fun _ hd => hd

/-- What starts a text starts like the text. -/
theorem of_append (inside behind : List Char) : StartsLike inside (inside ++ behind) := by
  cases inside with
  | nil => exact nil behind
  | cons c inside => exact fun _ hd => hd

theorem all {P : Char → Prop} (h : StartsLike rest' rest) (hrest : ∀ c ∈ rest.head?, P c) :
    ∀ c ∈ rest'.head?, P c :=
  fun c hc => hrest c (h c hc)

end StartsLike

private theorem head_dropWhile {p : Char → Bool} (cs : List Char) :
    ∀ c ∈ (cs.dropWhile p).head?, p c = false := by
  intro c hc
  cases hrest : cs.dropWhile p with
  | nil =>
    rw [hrest] at hc
    exact nomatch hc
  | cons d rest =>
    have hd := List.head_dropWhile_not p (l := cs) (by rw [hrest]; exact List.cons_ne_nil _ _)
    rw [hrest] at hc
    simp only [hrest] at hd
    obtain rfl : d = c := Option.some.inj hc
    exact hd

/-- A run of characters is the same in front of another rest that ends it. -/
theorem takeWhile_takeWhile_append {p : Char → Bool} (cs : List Char) {rest' : List Char}
    (h : ∀ c ∈ rest'.head?, p c = false) :
    (cs.takeWhile p ++ rest').takeWhile p = cs.takeWhile p ∧
    (cs.takeWhile p ++ rest').dropWhile p = rest' :=
  takeWhile_append_of_stop (fun _ hc => List.all_eq_true.1 List.all_takeWhile _ hc) h

namespace StringLiteral

/-- Reading a string never looks behind its closing quote. -/
theorem scan_local {n : Nat} {cs : List Char} {r : Reading} (h : scan n cs = .ok r)
    (rest' : List Char) : scan n (r.text ++ rest') = .ok { r with rest := rest' } := by
  fun_induction scan n cs generalizing r with
  | case2 n rest =>
    cases h
    rfl
  | case3 n a b c d rest ch hu ih =>
    cases hr : scan (n + 6) rest with
    | error e => simp [hr, Except.map] at h
    | ok q =>
      simp only [hr, Except.map, Except.ok.injEq] at h
      subst h
      simp only [Reading.push, List.cons_append, List.nil_append, scan, hu, ih hr]
      rfl
  | case5 n e rest hpattern ch he ih =>
    cases hr : scan (n + 2) rest with
    | error e => simp [hr, Except.map] at h
    | ok q =>
      simp only [hr, Except.map, Except.ok.injEq] at h
      subst h
      have hu : e ≠ 'u' := by rintro rfl; cases he
      simp only [Reading.push, List.cons_append, List.nil_append, scan_simple n _ he hu, ih hr]
      rfl
  | case10 n c rest hquote _ hpair hsingle hline hcontrol ih =>
    cases hr : scan (n + c.utf8Size) rest with
    | error e => simp [hr, Except.map] at h
    | ok q =>
      simp only [hr, Except.map, Except.ok.injEq] at h
      subst h
      have hslash := ne_backslash hpair hsingle
      simp only [Reading.push, List.cons_append, List.nil_append,
        scan_plain n _ hquote hslash hline hcontrol, ih hr]
      rfl
  | _ => cases h

end StringLiteral

namespace Number

variable {n : Nat} {cs rest rest' : List Char}

private theorem someDigits_local {ds : List Char} (h : someDigits n cs = .ok (ds, rest))
    (hrest : StartsLike rest' rest) : someDigits n (ds ++ rest') = .ok (ds, rest') := by
  refine someDigits_append (isDigits_of_someDigits h) (hrest.all ?_)
  unfold someDigits at h
  split at h
  · exact nomatch h
  · obtain ⟨-, rfl⟩ := Prod.mk.inj (Except.ok.inj h)
    exact head_dropWhile cs

private theorem sign_local (signs : List Char) (hrest : StartsLike rest' (sign signs cs).2) :
    sign signs ((sign signs cs).1 ++ rest') = ((sign signs cs).1, rest') := by
  refine sign_append (sign_cases signs cs) fun hnil => hrest.all ?_
  cases cs with
  | nil => simp [sign]
  | cons c cs =>
    by_cases hc : c ∈ signs
    · simp [sign, hc] at hnil
    · simp [sign, hc]

private theorem whole_local {w : List Char} (h : whole n cs = .ok (w, rest))
    (hrest : StartsLike rest' rest) : whole n (w ++ rest') = .ok (w, rest') := by
  refine whole_append (isWhole_of_whole h) (hrest.all ?_)
  unfold whole at h
  split at h
  · split at h
    · exact nomatch h
    · rename_i hd
      obtain ⟨-, rfl⟩ := Prod.mk.inj (Except.ok.inj h)
      simpa using hd
  · obtain ⟨-, rfl⟩ := Prod.mk.inj (Except.ok.inj h)
    simp
  · unfold someDigits at h
    split at h
    · exact nomatch h
    · obtain ⟨-, rfl⟩ := Prod.mk.inj (Except.ok.inj h)
      exact head_dropWhile _

private theorem fraction_local {f : List Char} (h : fraction n cs = .ok (f, rest))
    (hrest : StartsLike rest' rest) : fraction n (f ++ rest') = .ok (f, rest') := by
  unfold fraction at h
  split at h
  · rename_i tail
    cases hd : someDigits (n + 1) tail with
    | error e => simp [hd, Except.map] at h
    | ok p =>
      obtain ⟨ds, r⟩ := p
      simp only [hd, Except.map, Except.ok.injEq, Prod.mk.injEq] at h
      obtain ⟨rfl, rfl⟩ := h
      simp only [List.cons_append, fraction, someDigits_local hd hrest]
      rfl
  · rename_i hpoint
    obtain ⟨rfl, rfl⟩ := Prod.mk.inj (Except.ok.inj h)
    rw [List.nil_append]
    unfold fraction
    split
    · rename_i tail
      obtain ⟨c, hc⟩ : ∃ tail, cs = '.' :: tail := by
        have hhead := hrest '.' rfl
        cases cs with
        | nil => cases hhead
        | cons c cs => exact ⟨cs, by rw [Option.some.inj hhead]⟩
      exact (hpoint c hc).elim
    · rfl

private theorem exponent_local {e : List Char} (h : exponent n cs = .ok (e, rest))
    (hrest : StartsLike rest' rest) : exponent n (e ++ rest') = .ok (e, rest') := by
  cases cs with
  | nil =>
    obtain ⟨rfl, rfl⟩ := Prod.mk.inj (Except.ok.inj h)
    cases rest' with
    | nil => rfl
    | cons c rest' => exact nomatch hrest c rfl
  | cons c cs =>
    rw [exponent] at h
    by_cases hc : c = 'e' ∨ c = 'E'
    · simp only [if_pos hc] at h
      cases hd : someDigits (n + 1 + (sign ['+', '-'] cs).1.length) (sign ['+', '-'] cs).2 with
      | error e => simp [hd, Except.map] at h
      | ok p =>
        obtain ⟨ds, r⟩ := p
        simp only [hd, Except.map, Except.ok.injEq, Prod.mk.injEq] at h
        obtain ⟨rfl, rfl⟩ := h
        have hsign : StartsLike (ds ++ rest') (sign ['+', '-'] cs).2 := by
          rw [← (append_of_someDigits hd).1]
          exact hrest.append ds
        have hdigits := someDigits_local hd hrest
        rw [List.append_assoc, List.cons_append, exponent, if_pos hc, sign_local _ hsign]
        simp only [hdigits]
        rfl
    · rw [if_neg hc] at h
      obtain ⟨rfl, rfl⟩ := Prod.mk.inj (Except.ok.inj h)
      rw [List.nil_append]
      cases rest' with
      | nil => rfl
      | cons d rest' =>
        obtain rfl : c = d := Option.some.inj (hrest d rfl)
        rw [exponent, if_neg hc]

/-- Reading a number looks at one character behind it. -/
theorem scan_local {text : List Char} {isFloat : Bool} (h : scan cs = .ok (text, isFloat, rest))
    (hrest : StartsLike rest' rest) : scan (text ++ rest') = .ok (text, isFloat, rest') := by
  simp only [scan, bind, Except.bind] at h
  split at h
  · cases h
  · rename_i w hw
    split at h
    · cases h
    · rename_i f hf
      split at h
      · cases h
      · rename_i e he
        obtain ⟨w, afterWhole⟩ := w
        obtain ⟨f, afterFraction⟩ := f
        obtain ⟨e, afterExponent⟩ := e
        simp only [pure, Except.pure, Except.ok.injEq, Prod.mk.injEq] at hw hf he h
        obtain ⟨rfl, rfl, rfl⟩ := h
        have hexponent : StartsLike (e ++ rest') afterFraction := by
          rw [← append_of_exponent he]
          exact hrest.append e
        have hfraction : StartsLike (f ++ (e ++ rest')) afterWhole := by
          rw [← append_of_fraction hf]
          exact hexponent.append f
        have hwhole : StartsLike (w ++ (f ++ (e ++ rest'))) (sign ['-'] cs).2 := by
          rw [← (append_of_whole hw).1]
          exact hfraction.append w
        simp only [List.append_assoc, scan, sign_local ['-'] hwhole, bind, Except.bind,
          whole_local hw hfraction, fraction_local hf hexponent, exponent_local he hrest]
        rfl

end Number

namespace Scanned

variable {cs rest' : List Char}

theorem description_append (cs : List Char) (h : ∀ c ∈ rest'.head?, (!Ignored.endsLine c) = false) :
    description ((description cs).text ++ rest') = { description cs with rest := rest' } := by
  obtain ⟨htake, hdrop⟩ := takeWhile_takeWhile_append cs h
  simp only [description, htake, hdrop]

theorem name_append (cs : List Char) (h : ∀ c ∈ rest'.head?, isNameChar c = false) :
    name ((name cs).text ++ rest') = { name cs with rest := rest' } := by
  obtain ⟨htake, hdrop⟩ := takeWhile_takeWhile_append cs h
  simp only [name, htake, hdrop]

theorem text_name {c : Char} (h : isNameStart c = true) (cs : List Char) :
    (name (c :: cs)).text = c :: cs.takeWhile isNameChar :=
  List.takeWhile_cons_of_pos (isNameChar_of_isNameStart h)

end Scanned

/-- A token is read alike in front of two texts that start alike. -/
theorem Scans.local {cs : List Char} {s : Scanned} (h : Scans cs s) (hs : s.text ≠ [])
    {rest' : List Char} (hrest : StartsLike rest' s.rest) :
    Scans (s.text ++ rest') { s with rest := rest' } := by
  cases h with
  | endOfInput => exact absurd rfl hs
  | description tail =>
    rw [← Scanned.description_append _ (hrest.all (head_dropWhile _))]
    exact .description _
  | @string contents r hr => exact .string (StringLiteral.scan_local hr rest')
  | @number _ text _ isFloat hstarts hr =>
    obtain ⟨c, ds, hcons, -, -, hstarts⟩ := starts_append (Number.isNumber_of_scan hr) rest'
    rw [String.toList_ofList] at hcons
    refine .number ?_ (Number.scan_local hr hrest)
    rw [hcons]
    exact hstarts
  | @name c tail hc =>
    rw [← Scanned.name_append _ (hrest.all (head_dropWhile _)), Scanned.text_name hc]
    exact .name hc
  | punctuator p hplain =>
    refine .punctuator p ?_
    by_cases hp : p.char = '-'
    · rw [hp, starts_minus] at hplain ⊢
      cases rest' with
      | nil => rfl
      | cons d rest' =>
        rw [Option.mem_def.1 (hrest d rfl)] at hplain
        exact hplain
    · rw [starts_eq_isDigit hp] at hplain ⊢
      exact hplain

end SchemaLang

import SchemaLang.Proofs.Documents
import SchemaLang.Proofs.Lexing.Contract
import SchemaLang.Proofs.Preservation.Headings
import SchemaLang.Proofs.Slices.Order

/-!
# What nodes were read from

A node of a parsed document, unless it is the document, was read from lexemes of the source that
follow one another: those of the form that it is written as. Its location is from where the first of
them starts to where the last one stops.
-/

namespace SchemaLang

variable {s : Source} {o : ParseOptions} {d : Document} {n : Node}

/-- Only the document itself is a document among the nodes within it. -/
theorem Node.Within.ne_document {root : Node} (h : root.Within n) (hne : n ≠ root) (d : Document) :
    n ≠ .document d := by
  cases h with
  | refl => exact absurd rfl hne
  | child _ hc => exact ne_document_of_mem_children hc d

/-- What a part of the form of a parsed document was read from: lexemes that follow one another. -/
theorem exists_lexemes_of_hasPart {F : Form} (h : parseDocument s o = .ok d)
    (part : d.form.HasPart F) : ∃ before first rest behind, F.Covers (o.locate s) (first :: rest) ∧
      s.lexemes = before ++ (first :: rest ++ behind) := by
  obtain ⟨conforms, -, c, m, hc, -, spans, -⟩ := isSpelledBy_of_parseDocument h
  obtain ⟨starts, -⟩ := (Document.isAnchored_form conforms).of_hasPart part
  obtain ⟨k, k', ⟨before, hbefore⟩, hF⟩ := part.exists_spans spans
  obtain ⟨ls, hls, -, covers⟩ := Form.covers_of_spans hF
  obtain ⟨first, rest, rfl⟩ := List.exists_cons_of_ne_nil (starts.covers_ne_nil covers)
  exact ⟨before, first, rest, k'.lexemes, covers, by rw [← hc, ← hbefore, hls]⟩

/-- A node within a parsed document was read from lexemes that follow one another. -/
theorem exists_lexemes_of_within (h : parseDocument s o = .ok d) (hn : (Node.document d).Within n)
    (hne : n ≠ .document d) : ∃ F before first rest behind, n.IsWrittenAs F ∧
      F.Covers (o.locate s) (first :: rest) ∧ s.lexemes = before ++ (first :: rest ++ behind) := by
  obtain ⟨F, written, part⟩ := hn.hasNode (rfl : (Node.document d).IsWrittenAs d.form) hne
  obtain ⟨before, first, rest, behind, covers, hlexemes⟩ := exists_lexemes_of_hasPart h part
  exact ⟨F, before, first, rest, behind, written, covers, hlexemes⟩

/-- The location of a node is from where its first lexeme starts to where its last one stops. -/
theorem Node.IsWrittenAs.loc_eq {F : Form} {locate : Nat → Nat → Option Loc} {first : Lexeme}
    {rest : List Lexeme} (written : n.IsWrittenAs F) (hn : ∀ d, n ≠ .document d)
    (covers : F.Covers locate (first :: rest)) :
    n.loc = locate first.span.start (Lexeme.lastStop 0 (first :: rest)) := by
  obtain ⟨body, rfl, -⟩ := exists_body written hn
  exact covers.2 first rfl

namespace Lexeme

variable {pending : List String} {rs : List Reading} {l : Lexeme} {front behind : List Lexeme}

/-- In front of the token of the first lexeme stand the lines of its description and
nothing else. -/
theorem exists_run_of_gather_cons (h : gather pending rs = l :: behind) :
    ∃ run r later, rs = run ++ r :: later ∧ (∀ x ∈ run, x.token.isDescription = true) ∧
      r.token.isDescription = false ∧ r.placed = l.placed ∧
      l.description = joinLines (pending ++ run.filterMap fun x => x.token.descriptionText?) := by
  induction rs generalizing pending with
  | nil => exact nomatch h
  | cons r rs ih =>
    cases hr : r.token.isDescription with
    | false =>
      rw [gather_cons hr] at h
      obtain ⟨rfl, -⟩ := List.cons.inj h
      exact ⟨[], r, rs, rfl, by simp, hr, rfl, by simp⟩
    | true =>
      obtain ⟨token, span, gap, rest⟩ := r
      cases token with
      | description line =>
        obtain ⟨run, r, later, rfl, hrun, plain, placed, description⟩ := ih h
        refine ⟨⟨.description line, span, gap, rest⟩ :: run, r, later, rfl,
          List.forall_mem_cons.2 ⟨rfl, hrun⟩, plain, placed, ?_⟩
        rw [description, List.append_assoc]
        rfl
      | _ => exact nomatch hr

/-- The tokens of a source up to a lexeme: those of the lexemes in front, of which the last is no
description, then the lines of the description of this one, then its own. -/
theorem exists_run_of_gather (h : gather [] rs = front ++ l :: behind) :
    ∃ earlier run r later, rs = earlier ++ (run ++ r :: later) ∧ gather [] earlier = front ∧
      (∀ x ∈ earlier.getLast?, x.token.isDescription = false) ∧
      (∀ x ∈ run, x.token.isDescription = true) ∧ r.token.isDescription = false ∧
      r.placed = l.placed ∧ l.description =
        joinLines (run.filterMap fun x => x.token.descriptionText?) := by
  cases front using List.reverseRecOn with
  | nil =>
    obtain ⟨run, r, later, rfl, hrun, plain, placed, description⟩ := exists_run_of_gather_cons h
    exact ⟨[], run, r, later, rfl, rfl, by simp, hrun, plain, placed, description⟩
  | append_singleton front k _ =>
    rw [List.append_assoc] at h
    obtain ⟨xs, q, zs, rfl, hq, -, hfront, hbehind⟩ := exists_of_gather h
    obtain ⟨run, r, later, rfl, hrun, plain, placed, description⟩ :=
      exists_run_of_gather_cons hbehind
    exact ⟨xs ++ [q], run, r, later,
      by simp, hfront, by simpa using hq, hrun, plain, placed, description⟩

/-- Where one of some lexemes is the last one, they stop where it does. -/
theorem exists_mem_lastStop (first : Lexeme) (rest : List Lexeme) (position : Nat) :
    ∃ last ∈ first :: rest, lastStop position (first :: rest) = last.span.stop :=
  ⟨_, List.getLast_mem (List.cons_ne_nil first rest), by
    rw [lastStop, List.getLast?_eq_some_getLast (List.cons_ne_nil first rest)]
    rfl⟩

end Lexeme

namespace Source

/-- Every token that is no description is the one of a lexeme, in its place. -/
theorem exists_lexeme {r : Reading} (h : r ∈ s.tokens.readings)
    (plain : r.token.isDescription = false) : ∃ l ∈ s.lexemes, l.placed = r.placed := by
  refine List.mem_map.1 ?_
  rw [lexemes, Lexeme.map_placed_gather]
  exact List.mem_filter.2 ⟨List.mem_map_of_mem h, by rw [Reading.placed, plain]; rfl⟩

theorem ReadsFrom.exists_readsAt {position : Nat} {rs : List Reading}
    (h : s.ReadsFrom position rs) : ∀ r ∈ rs, ∃ earlier, s.ReadsAt earlier r := by
  induction rs generalizing position with
  | nil => simp
  | cons r rs ih => exact List.forall_mem_cons.2 ⟨⟨position, h.1⟩, ih h.2⟩

end Source

end SchemaLang

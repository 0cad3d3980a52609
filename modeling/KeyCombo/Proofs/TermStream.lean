import KeyCombo.Proofs.Concatenation
import KeyCombo.Proofs.Cursor
import KeyCombo.Proofs.RoundTrip

set_option autoImplicit false

/-! # Reading printed terms one after the other

Printed terms may stand behind one another in a source, set apart by blanks, and one reader that is
told for each of them whether it is a definition gets back exactly those terms.

A reader has to stop where a term ends, whatever stands behind it. Only an opening parenthesis
behind a name would make it go on, and no term starts with one (`DerivesTerm.perform_append`). -/

namespace KeyCombo

open Text Token Reader

/-! ## Sources of several terms -/

/-- The text of printed terms, each behind its gap, with one more gap at its end. -/
def joined (last : String) : List (String × Term) → String
  | [] => last
  | (gap, t) :: parts => gap ++ (t.render ++ joined last parts)

/-- Gaps that set printed terms apart: they are blank, and not empty between two terms. -/
structure SetApart (parts : List (String × Term)) (last : String) : Prop where
  blank : ∀ p ∈ parts, ∀ c ∈ p.1.toList, isSkip c = true
  blankLast : ∀ c ∈ last.toList, isSkip c = true
  between : ∀ p ∈ parts.tail, p.1 ≠ ""

/-- The tokens of each printed term, given the text in front of them all: they are those of the term
    alone, moved to where it stands. -/
inductive Chunks : List Char → List (String × Term) → List (List Token) → Prop
  | nil {before : List Char} : Chunks before [] []
  | cons {before : List Char} {gap : String} {t : Term} {first : Token} {others : List Token}
      {parts : List (String × Term)} {chunks : List (List Token)}
      (hscan : scan t.render = .ok (first :: others))
      (hrest : Chunks (before ++ gap.toList ++ t.render.toList) parts chunks) :
      Chunks before ((gap, t) :: parts)
        ((first :: others).map (Token.shift (before ++ gap.toList)) :: chunks)

/-- The step that reads a term. Definitions have a reader of their own. -/
def Reader.Step.forTerm (t : Term) : Step :=
  match t.form with
  | .definition => .definition
  | _ => .term

/-! ## Reading a term with a tail -/

/-- Tokens that make up an expression or a definition. -/
inductive DerivesTerm (ts : List Token) (t : Term) : Prop
  | expression (h : Derives ts t)
  | definition (h : DerivesDefinition ts t)

namespace DerivesTerm

variable {ts : List Token} {t : Term}

/-- A term does not start with a parenthesis. -/
theorem exists_cons (h : DerivesTerm ts t) : ∃ u us, ts = u :: us ∧ u.kind ≠ .leftParen := by
  cases h with
  | expression h =>
    obtain ⟨u, us, rfl, hu⟩ := h.exists_cons
    refine ⟨u, us, rfl, ?_⟩
    rcases hu with hu | hu <;> simp [hu]
  | definition h =>
    obtain ⟨hd, -⟩ := h
    exact ⟨_, _, rfl, by simp [hd]⟩

/-- **A term is read back, whatever stands behind it**, unless that is an opening parenthesis. -/
theorem perform_append (h : DerivesTerm ts t) {rest : List Token}
    (hrest : ¬StartsWith .leftParen rest) :
    perform (.forTerm t) (ts ++ rest) = .ok (.term t) rest := by
  cases h with
  | expression h =>
    have hstep : Step.forTerm t = .term := by
      cases h <;> rfl
    rw [hstep]
    exact bind_eq_ok.2 ⟨t, rest, term_eq_ok_iff.2 ⟨ts, rfl, h, fun _ => hrest⟩, rfl⟩
  | definition h =>
    have hstep : Step.forTerm t = .definition := by
      cases h
      rfl
    rw [hstep]
    exact bind_eq_ok.2 ⟨t, rest, definition_eq_ok_iff.2 ⟨ts, rfl, h⟩, rfl⟩

end DerivesTerm

theorem scansTo_derivesTerm {t : Term} (h : Expressible t) :
    ScansTo t.render.toList fun ts => DerivesTerm ts t := by
  cases h with
  | expression ht => exact (scansTo_render ht).imp fun _ => .expression
  | definition hhead hparams hbody =>
    exact (scansTo_render_definition hhead hparams hbody).imp fun _ => .definition

/-! ## Scanning several terms -/

variable {parts : List (String × Term)} {last gap : String} {t : Term}

theorem SetApart.tail {p : String × Term} (h : SetApart (p :: parts) last) :
    SetApart parts last where
  blank q hq := h.blank q (List.mem_cons_of_mem p hq)
  blankLast := h.blankLast
  between q hq := h.between q (List.mem_of_mem_tail hq)

theorem cutsNoWord_of_blank {bs : List Char} (as : List Char)
    (h : ∀ d ∈ bs.head?, isSkip d = true) : CutsNoWord as bs := by
  intro c _ d hd hw
  rw [not_isWordChar_of_isSkip (h d hd)] at hw
  cases hw.2

/-- No word goes on from a term into the text behind it. -/
theorem SetApart.cutsNoWord (h : SetApart ((gap, t) :: parts) last) (as : List Char) :
    CutsNoWord as (joined last parts).toList := by
  refine cutsNoWord_of_blank as fun d hd => ?_
  cases parts with
  | nil => exact h.blankLast d (List.mem_of_mem_head? hd)
  | cons p parts =>
    have hne : p.1.toList ≠ [] := by
      simpa using h.between p List.mem_cons_self
    rw [joined, String.toList_append, List.head?_append_of_ne_nil _ hne] at hd
    exact h.tail.blank p List.mem_cons_self d (List.mem_of_mem_head? hd)

/-- The scan of several terms falls into the tokens of each of them. -/
theorem exists_chunks (before : List Char) (hterms : ∀ p ∈ parts, Expressible p.2)
    (hgaps : SetApart parts last) :
    ∃ chunks, Chunks before parts chunks ∧
      scanPieces (.behind before) (pieces (joined last parts).toList) = .ok chunks.flatten ∧
      List.Forall₂ (fun p chunk => DerivesTerm chunk p.2) parts chunks := by
  induction parts generalizing before with
  | nil =>
    refine ⟨[], .nil, ?_, .nil⟩
    rw [joined, ← List.append_nil last.toList, scanPieces_blank_append hgaps.blankLast]
    rfl
  | cons p parts ih =>
    obtain ⟨gap, t⟩ := p
    rw [List.forall_mem_cons] at hterms
    obtain ⟨chunks, hchunks, hrest, hall⟩ :=
      ih (before ++ gap.toList ++ t.render.toList) hterms.2 hgaps.tail
    have hscansTo := scansTo_derivesTerm hterms.1
    obtain ⟨ts, hts, hderives⟩ := hscansTo .start
    obtain ⟨us, hus, hmoved⟩ := hscansTo (.behind (before ++ gap.toList))
    -- where the term stands, its tokens are those of the term alone, moved
    obtain rfl : us = ts.map (Token.shift (before ++ gap.toList)) := by
      rw [scanPieces_behind, hts] at hus
      exact (Except.ok.inj hus).symm
    obtain ⟨first, others, rfl, -⟩ := hderives.exists_cons
    refine ⟨_ :: chunks, .cons hts hchunks, ?_, .cons hmoved hall⟩
    rw [joined, String.toList_append, String.toList_append,
      scanPieces_blank_append (hgaps.blank _ List.mem_cons_self), ← Position.behind_append,
      scanPieces_append (hgaps.cutsNoWord _), hus, ← Position.behind_append, hrest]
    rfl

/-! ## Reading several terms -/

/-- Steps for several terms yield them one by one. Each stops in front of the next term. -/
theorem performAll_flatten {chunks : List (List Token)}
    (h : List.Forall₂ (fun p chunk => DerivesTerm chunk p.2) parts chunks) :
    performAll (parts.map (fun p => .forTerm p.2) ++ [.expectEnd]) chunks.flatten =
      (parts.mapIdx fun i p => .ok (.term p.2) (chunks.drop (i + 1)).flatten) ++
        [.ok .nothing []] := by
  induction h with
  | nil => rfl
  | @cons p chunk parts chunks hderives hall ih =>
    have hnext : ¬StartsWith .leftParen chunks.flatten := by
      cases hall with
      | nil => simp
      | cons hnext _ =>
        obtain ⟨u, us, rfl, hu⟩ := hnext.exists_cons
        simpa using hu
    rw [List.map_cons, List.cons_append, List.flatten_cons, performAll_cons,
      hderives.perform_append hnext, left, ih, List.mapIdx_cons]
    rfl

/-- **Printed terms are read back as a stream.** If each term is expressible and blanks set them
    apart, the source is scanned, and steps for the terms in their order yield exactly these terms,
    each step stopping at the first token of the next term, and the last one at the end. -/
theorem read_joined (hterms : ∀ p ∈ parts, Expressible p.2) (hgaps : SetApart parts last) :
    ∃ chunks, Chunks [] parts chunks ∧ scan (joined last parts) = .ok chunks.flatten ∧
      performAll (parts.map (fun p => .forTerm p.2) ++ [.expectEnd]) chunks.flatten =
        (parts.mapIdx fun i p => .ok (.term p.2) (chunks.drop (i + 1)).flatten) ++
          [.ok .nothing []] := by
  obtain ⟨chunks, hchunks, hscan, hall⟩ := exists_chunks [] hterms hgaps
  exact ⟨chunks, hchunks, hscan, performAll_flatten hall⟩

theorem read_joined_mixed :
    ∃ parts last, joined last parts = " f\n\tg(1, x)\r\n2 def h(a) f end\n" ∧
      (∀ p ∈ parts, Expressible p.2) ∧ SetApart parts last ∧ ∃ chunks, Chunks [] parts chunks ∧
        scan " f\n\tg(1, x)\r\n2 def h(a) f end\n" = .ok chunks.flatten ∧
        performAll [.term, .term, .term, .definition, .expectEnd] chunks.flatten =
          [.ok (.term (.name "f")) (chunks.drop 1).flatten,
            .ok (.term (.call "g" [.integer 1, .name "x"])) (chunks.drop 2).flatten,
            .ok (.term (.integer 2)) (chunks.drop 3).flatten,
            .ok (.term (.definition "h" ["a"] (.name "f"))) (chunks.drop 4).flatten,
            .ok .nothing []] := by
  let parts : List (String × Term) := [(" ", .name "f"),
    ("\n\t", .call "g" [.integer 1, .name "x"]), ("\r\n", .integer 2),
    (" ", .definition "h" ["a"] (.name "f"))]
  obtain ⟨hf, hg, hh, ha, hx⟩ :
      IsName "f" ∧ IsName "g" ∧ IsName "h" ∧ IsName "a" ∧ IsName "x" := by
    simp [IsName, isNameChar]
  have hargs : ∀ arg ∈ [.integer 1, .name "x"], IsExpression arg := by
    simpa using ⟨.integer (by decide), .name hx⟩
  have hterms : ∀ p ∈ parts, Expressible p.2 := by
    simp only [parts, List.forall_mem_cons]
    exact ⟨.expression (.name hf), .expression (.call hg hargs), .expression (.integer (by decide)),
      .definition hh (by simpa using ha) (.name hf), by simp⟩
  have hgaps : SetApart parts "\n" :=
    ⟨by simp [parts, isSkip], by simp [isSkip], by simp [parts]⟩
  obtain ⟨chunks, hchunks, hscan, hread⟩ := read_joined hterms hgaps
  have hsource : joined "\n" parts = " f\n\tg(1, x)\r\n2 def h(a) f end\n" := by cbv
  exact ⟨parts, "\n", hsource, hterms, hgaps, chunks, hchunks, hsource ▸ hscan, hread⟩

end KeyCombo

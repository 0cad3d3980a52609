import KeyCombo.Proofs.Decomposition
import KeyCombo.Token.Scan

set_option autoImplicit false

/-! # Longest matches

Tokens are given by patterns: the words `def` and `end`, the three punctuation marks, blanks,
and the words that start with a name character or with a digit. A scanner for them takes the
longest text that some pattern accepts, prefers the earlier pattern for that text, and refuses a
word only after it has taken all of it. A character with which nothing starts is refused alone.

`lexes_iff` says that scanning piece by piece comes to the same: what is taken is always one piece
of the text, and the pattern that takes it judges it as `judge` does. -/

namespace KeyCombo.Token

open Text

/-! ## Verdicts on the three shapes of a piece -/

/-- No word is a character that stands in no word. -/
theorem ne_singleton_of_isWordRun {p : List Char} (h : IsWordRun p) {d : Char}
    (hd : isWordChar d = false) : p ≠ [d] := by
  rintro rfl
  rw [h.2 d List.mem_cons_self] at hd
  cases hd

/-- No word consists of blank characters. -/
theorem not_all_isSkip_of_isWordRun {p : List Char} (h : IsWordRun p) :
    p.all isSkip = false := by
  obtain ⟨c, run, rfl⟩ := List.exists_cons_of_ne_nil h.1
  have hc : isWordChar c = true := h.2 c List.mem_cons_self
  cases hs : isSkip c with
  | false => simp [hs]
  | true =>
    rw [not_isWordChar_of_isSkip hs] at hc
    cases hc

theorem judge_wordRun {p : List Char} (h : IsWordRun p) :
    judge p = if p.all isNameChar then .token (kindOfName p)
      else if p.all Char.isDigit then .token .integer else .bad := by
  rw [judge, if_neg (ne_singleton_of_isWordRun h (by decide)),
    if_neg (ne_singleton_of_isWordRun h (by decide)),
    if_neg (ne_singleton_of_isWordRun h (by decide)),
    if_neg (by simp [not_all_isSkip_of_isWordRun h])]

theorem judge_blankRun {p : List Char} (h : IsBlankRun p) : judge p = .blank := by
  have hne : ∀ d : Char, isSkip d = false → p ≠ [d] := by
    rintro d hd rfl
    rw [h.2 d List.mem_cons_self] at hd
    cases hd
  rw [judge, if_neg (hne '(' (by decide)), if_neg (hne ',' (by decide)),
    if_neg (hne ')' (by decide)), if_pos (List.all_eq_true.2 h.2)]

theorem judge_lone {c : Char} (hw : isWordChar c = false) (hs : isSkip c = false) :
    judge [c] = if c = '(' then .token .leftParen else if c = ',' then .token .comma
      else if c = ')' then .token .rightParen else .bad := by
  simp only [isWordChar, Bool.or_eq_false_iff] at hw
  simp [judge, hw.1, hw.2, hs]

/-! ## Patterns -/

/-- What a scanner for tokens looks for. -/
inductive Pattern where
  | literal (text : List Char) (kind : TokenKind)
  | blanks
  | name
  | number
deriving DecidableEq

namespace Pattern

/-- Whether a pattern accepts a text. A word is accepted whatever word characters follow its first
    one. -/
def accepts : Pattern → List Char → Bool
  | .literal text _, cs => cs = text
  | .blanks, cs => cs ≠ [] && cs.all isSkip
  | .name, cs => cs.head?.any isNameChar && cs.all isWordChar
  | .number, cs => cs.head?.any Char.isDigit && cs.all isWordChar

/-- What a pattern makes of a text that it has taken. Words that mix digits with other characters
    are refused here. -/
def verdict : Pattern → List Char → Verdict
  | .literal _ kind, _ => .token kind
  | .blanks, _ => .blank
  | .name, cs => if cs.any Char.isDigit then .bad else .token .identifier
  | .number, cs => if cs.all Char.isDigit then .token .integer else .bad

/-- All patterns. Of several that accept a text the first one takes it. -/
def table : List Pattern :=
  [.literal ['d', 'e', 'f'] .defWord, .literal ['e', 'n', 'd'] .endWord,
   .literal ['('] .leftParen, .literal [','] .comma, .literal [')'] .rightParen,
   .blanks, .name, .number]

/-- The pattern that takes a text. -/
def of? (cs : List Char) : Option Pattern := table.find? (·.accepts cs)

/-- What some pattern accepts is a piece. -/
theorem isPiece_of_accepts {pat : Pattern} {p : List Char} (hmem : pat ∈ table)
    (hacc : pat.accepts p = true) : IsPiece p := by
  simp only [table, List.mem_cons, List.not_mem_nil, or_false] at hmem
  rcases hmem with rfl | rfl | rfl | rfl | rfl | rfl | rfl | rfl
  · rw [of_decide_eq_true hacc]
    exact Or.inl (isWordRun_of_all (by decide) rfl)
  · rw [of_decide_eq_true hacc]
    exact Or.inl (isWordRun_of_all (by decide) rfl)
  · rw [of_decide_eq_true hacc]
    exact .singleton _
  · rw [of_decide_eq_true hacc]
    exact .singleton _
  · rw [of_decide_eq_true hacc]
    exact .singleton _
  · exact Or.inr (Or.inl (by simpa [accepts, IsBlankRun] using hacc))
  · rw [accepts, Bool.and_eq_true, List.all_eq_true] at hacc
    exact Or.inl ⟨by rintro rfl; simp at hacc, hacc.2⟩
  · rw [accepts, Bool.and_eq_true, List.all_eq_true] at hacc
    exact Or.inl ⟨by rintro rfl; simp at hacc, hacc.2⟩

theorem isPiece_of_of? {p : List Char} {pat : Pattern} (h : of? p = some pat) : IsPiece p := by
  unfold of? at h
  have hacc := List.find?_some h
  exact isPiece_of_accepts (List.mem_of_find?_eq_some h) hacc

theorem of?_eq_none {p : List Char} :
    of? p = none ↔ ∀ pat ∈ table, pat.accepts p = false := by
  simp [of?]

/-- A run is accepted by some pattern. -/
theorem isLone_of_of?_eq_none {p : List Char} (hp : IsPiece p) (h : of? p = none) : IsLone p := by
  rw [of?_eq_none] at h
  rcases hp with hword | hblank | hlone
  · obtain ⟨c, run, rfl⟩ := List.exists_cons_of_ne_nil hword.1
    have hall : (c :: run).all isWordChar = true := List.all_eq_true.2 hword.2
    have hname : accepts .name (c :: run) = false := h _ (by simp [table])
    have hnumber : accepts .number (c :: run) = false := h _ (by simp [table])
    have hc : isWordChar c = true := hword.2 c List.mem_cons_self
    simp only [accepts, hall, Bool.and_true, List.head?_cons, Option.any_some] at hname hnumber
    simp [isWordChar, hname, hnumber] at hc
  · have hblanks : accepts .blanks p = false := h _ (by simp [table])
    have hall : p.all isSkip = true := List.all_eq_true.2 hblank.2
    simp [accepts, hall, hblank.1] at hblanks
  · exact hlone

theorem judge_literal {text : List Char} {kind : TokenKind} (h : .literal text kind ∈ table) :
    judge text = .token kind := by
  simp only [table, List.mem_cons, List.not_mem_nil, or_false, literal.injEq, reduceCtorEq] at h
  rcases h with ⟨rfl, rfl⟩ | ⟨rfl, rfl⟩ | ⟨rfl, rfl⟩ | ⟨rfl, rfl⟩ | ⟨rfl, rfl⟩ <;> rfl

/-- A pattern that takes a text judges it as the scanner judges a piece. -/
theorem verdict_eq_judge {p : List Char} {pat : Pattern} (h : of? p = some pat) :
    pat.verdict p = judge p := by
  have hp : IsPiece p := isPiece_of_of? h
  have hmem : pat ∈ table := List.mem_of_find?_eq_some h
  have hacc := List.find?_some (by exact h)
  cases pat with
  | literal text kind =>
    have htext : p = text := of_decide_eq_true hacc
    rw [verdict, htext, judge_literal hmem]
  | blanks =>
    have hblank : IsBlankRun p := by simpa [accepts, IsBlankRun] using hacc
    rw [verdict, judge_blankRun hblank]
  | name =>
    rw [accepts, Bool.and_eq_true] at hacc
    obtain ⟨c, run, rfl⟩ := List.exists_cons_of_ne_nil hp.ne_nil
    have hc : isNameChar c = true := by simpa using hacc.1
    have hword : IsWordRun (c :: run) := ⟨hp.ne_nil, List.all_eq_true.1 hacc.2⟩
    -- the two words with a pattern of their own have been taken by it
    have hdef : c :: run ≠ ['d', 'e', 'f'] := by
      intro heq
      rw [heq] at h
      cases h
    have hend : c :: run ≠ ['e', 'n', 'd'] := by
      intro heq
      rw [heq] at h
      cases h
    have hdigits : (c :: run).all Char.isDigit = false := by
      simp [not_isDigit_of_isNameChar hc]
    rw [judge_wordRun hword, kindOfName, if_neg hdef, if_neg hend, verdict,
      hword.any_isDigit, hdigits]
    cases (c :: run).all isNameChar <;> rfl
  | number =>
    rw [accepts, Bool.and_eq_true] at hacc
    obtain ⟨c, run, rfl⟩ := List.exists_cons_of_ne_nil hp.ne_nil
    have hc : c.isDigit = true := by simpa using hacc.1
    have hword : IsWordRun (c :: run) := ⟨hp.ne_nil, List.all_eq_true.1 hacc.2⟩
    have hnames : (c :: run).all isNameChar = false :=
      all_isNameChar_eq_false List.mem_cons_self hc
    rw [judge_wordRun hword, hnames, verdict]
    rfl

/-- No pattern takes a lone character that the scanner does not refuse. -/
theorem judge_of_of?_eq_none {c : Char} (hlone : IsLone [c]) (h : of? [c] = none) :
    judge [c] = .bad := by
  rw [of?_eq_none] at h
  have hne : ∀ d kind, .literal [d] kind ∈ table → c ≠ d := by
    rintro d kind hmem rfl
    have hacc := h _ hmem
    simp [accepts] at hacc
  obtain ⟨d, hd, hw, hs⟩ := hlone
  obtain rfl := List.singleton_inj.1 hd
  rw [judge_lone hw hs, if_neg (hne '(' .leftParen (by simp [table])),
    if_neg (hne ',' .comma (by simp [table])), if_neg (hne ')' .rightParen (by simp [table]))]

end Pattern

/-! ## Scanning by longest matches -/

/-- The text `piece` at the front of `piece ++ rest` is taken by a pattern, and no longer text
    there is. -/
structure LongestMatch (piece rest : List Char) (pat : Pattern) : Prop where
  taken : Pattern.of? piece = some pat
  longest : ∀ more, more ≠ [] → more <+: rest → Pattern.of? (piece ++ more) = none

/-- Scanning a text from left to right, always taking the longest match. -/
inductive Lexes : Position → List Char → Except ScanError (List Token) → Prop
  | done {p : Position} : Lexes p [] (.ok [])
  | blank {p : Position} {piece rest : List Char} {pat : Pattern}
      {r : Except ScanError (List Token)} (hmatch : LongestMatch piece rest pat)
      (hverdict : pat.verdict piece = .blank) (hrest : Lexes (p.afterAll piece) rest r) :
      Lexes p (piece ++ rest) r
  | token {p : Position} {piece rest : List Char} {pat : Pattern} {kind : TokenKind}
      {r : Except ScanError (List Token)} (hmatch : LongestMatch piece rest pat)
      (hverdict : pat.verdict piece = .token kind) (hrest : Lexes (p.afterAll piece) rest r) :
      Lexes p (piece ++ rest) (r.map (⟨kind, .ofList piece, p⟩ :: ·))
  | refused {p : Position} {piece rest : List Char} {pat : Pattern}
      (hmatch : LongestMatch piece rest pat) (hverdict : pat.verdict piece = .bad) :
      Lexes p (piece ++ rest) (.error ⟨.ofList piece, p⟩)
  | unmatched {p : Position} {c : Char} {rest : List Char}
      (hnone : ∀ more, more <+: rest → Pattern.of? (c :: more) = none) :
      Lexes p (c :: rest) (.error ⟨.ofList [c], p⟩)

/-- A longest match is a piece. -/
theorem LongestMatch.pieces_append {piece rest : List Char} {pat : Pattern}
    (h : LongestMatch piece rest pat) : pieces (piece ++ rest) = piece :: pieces rest := by
  have hp : IsPiece piece := Pattern.isPiece_of_of? h.taken
  refine pieces_run_append hp.ne_nil hp.isChain ?_
  intro c hc d hd
  rw [← Bool.not_eq_true]
  intro hcd
  -- one more character would have been taken as well
  have hmore : [d] <+: rest := by
    obtain ⟨tail, rfl⟩ := List.head?_eq_some_iff.1 hd
    exact ⟨tail, rfl⟩
  have hnone : Pattern.of? (piece ++ [d]) = none := h.longest [d] (List.cons_ne_nil _ _) hmore
  obtain ⟨e, he, -⟩ := Pattern.isLone_of_of?_eq_none (hp.concat hc hcd) hnone
  have hlen : piece.length + 1 = 1 := by simpa using congrArg List.length he
  exact hp.ne_nil (List.length_eq_zero_iff.1 (by omega))

/-- No pattern takes more than a piece. -/
theorem of?_append_eq_none {cs p more : List Char} {ps : List (List Char)}
    (h : Decomposition cs (p :: ps)) (hne : more ≠ []) (hmore : more <+: ps.flatten) :
    Pattern.of? (p ++ more) = none := by
  cases heq : Pattern.of? (p ++ more) with
  | none => rfl
  | some pat =>
    have hp : IsPiece p := h.isPiece p List.mem_cons_self
    have hchain := (Pattern.isPiece_of_of? heq).isChain
    have hseam := (List.isChain_append.1 hchain).2.2
    obtain ⟨d, tail, rfl⟩ := List.exists_cons_of_ne_nil hne
    obtain ⟨rest, hrest⟩ := hmore
    have hlast : p.getLast hp.ne_nil ∈ p.getLast? := List.getLast?_eq_some_getLast hp.ne_nil
    have hjoin := hseam _ hlast d rfl
    rw [h.joins_eq_false _ hlast d (by simp [← hrest])] at hjoin
    cases hjoin

theorem longestMatch_of_decomposition {cs p : List Char} {ps : List (List Char)} {pat : Pattern}
    (h : Decomposition cs (p :: ps)) (htaken : Pattern.of? p = some pat) :
    LongestMatch p ps.flatten pat :=
  ⟨htaken, fun _ hne hmore => of?_append_eq_none h hne hmore⟩

/-- Scanning by longest matches comes to an end, with tokens or with an error. -/
theorem exists_lexes (ps : List (List Char)) : ∀ (p : Position) (cs : List Char),
    Decomposition cs ps → ∃ r, Lexes p cs r := by
  induction ps with
  | nil =>
    intro p cs h
    rw [← h.flatten_eq]
    exact ⟨_, .done⟩
  | cons piece ps ih =>
    intro p cs h
    rw [← h.flatten_eq, List.flatten_cons]
    have hpiece : IsPiece piece := h.isPiece piece List.mem_cons_self
    obtain ⟨r, hr⟩ := ih (p.afterAll piece) ps.flatten h.tail
    cases htaken : Pattern.of? piece with
    | some pat =>
      have hmatch := longestMatch_of_decomposition h htaken
      cases hverdict : pat.verdict piece with
      | blank => exact ⟨_, .blank hmatch hverdict hr⟩
      | token kind => exact ⟨_, .token hmatch hverdict hr⟩
      | bad => exact ⟨_, .refused hmatch hverdict⟩
    | none =>
      obtain ⟨c, rfl, -⟩ := Pattern.isLone_of_of?_eq_none hpiece htaken
      refine ⟨_, .unmatched fun more hmore => ?_⟩
      by_cases hne : more = []
      · rw [hne]
        exact htaken
      · exact of?_append_eq_none h hne hmore

/-- What longest matches give is what scanning the pieces gives. -/
theorem Lexes.eq_scanPieces {p : Position} {cs : List Char} {r : Except ScanError (List Token)}
    (h : Lexes p cs r) : r = scanPieces p (pieces cs) := by
  induction h with
  | done => rfl
  | blank hmatch hverdict _ ih =>
    rw [hmatch.pieces_append, scanPieces, ← Pattern.verdict_eq_judge hmatch.taken, hverdict, ih]
  | token hmatch hverdict _ ih =>
    rw [hmatch.pieces_append, scanPieces, ← Pattern.verdict_eq_judge hmatch.taken, hverdict, ih]
  | refused hmatch hverdict =>
    rw [hmatch.pieces_append, scanPieces, ← Pattern.verdict_eq_judge hmatch.taken, hverdict]
  | @unmatched p c rest hnone =>
    have hc : Pattern.of? [c] = none := hnone [] (List.nil_prefix)
    have hlone : IsLone [c] := Pattern.isLone_of_of?_eq_none (.singleton c) hc
    have hpieces : pieces ([c] ++ rest) = [c] :: pieces rest := by
      refine pieces_run_append (List.cons_ne_nil _ _) (List.isChain_singleton c) ?_
      intro d hd e _
      obtain ⟨x, hx, hw, hs⟩ := hlone
      rw [← List.singleton_inj.1 hx] at hw hs
      obtain rfl : c = d := by simpa using hd
      exact (joins_eq_false_of_not_isWordChar hw hs).1
    rw [List.singleton_append] at hpieces
    rw [hpieces, scanPieces, Pattern.judge_of_of?_eq_none hlone hc]

/-- **Scanning piece by piece is scanning by longest matches.** -/
theorem lexes_iff {p : Position} {cs : List Char} {r : Except ScanError (List Token)} :
    Lexes p cs r ↔ r = scanPieces p (pieces cs) := by
  constructor
  · exact Lexes.eq_scanPieces
  · rintro rfl
    obtain ⟨r, hr⟩ := exists_lexes (pieces cs) p cs (decomposition_pieces cs)
    rw [← hr.eq_scanPieces]
    exact hr

end KeyCombo.Token

import KeyCombo.Proofs.LongestMatch

set_option autoImplicit false

/-! # What a scan finds

A scan succeeds exactly if no piece of the text is bad, and then its tokens are the pieces that
are not blank, each at the bytes where it stands. A failing scan reports the leftmost bad piece.

The two lemmas on `scanPieces`, one for each outcome, are inductions on the pieces. What they say
in terms of `judge` is turned into properties of the characters of a piece by
`judge_eq_bad_iff` and `isOfKind_of_judge`. -/

namespace KeyCombo.Token

open Text

/-! ## Good and bad pieces -/

/-- A word that holds a digit and some other character, or a lone character that is no
    punctuation mark. -/
def Bad (p : List Char) : Prop :=
  (IsWordRun p ∧ (∃ c ∈ p, c.isDigit = true) ∧ ∃ c ∈ p, isNameChar c = true) ∨
    (IsLone p ∧ p ≠ ['('] ∧ p ≠ [','] ∧ p ≠ [')'])

/-- Whether a piece is a token of a kind. -/
def IsOfKind (p : List Char) : TokenKind → Prop
  | .defWord => p = ['d', 'e', 'f']
  | .endWord => p = ['e', 'n', 'd']
  | .identifier =>
    p ≠ [] ∧ (∀ c ∈ p, isNameChar c = true) ∧ p ≠ ['d', 'e', 'f'] ∧ p ≠ ['e', 'n', 'd']
  | .integer => p ≠ [] ∧ ∀ c ∈ p, c.isDigit = true
  | .leftParen => p = ['(']
  | .comma => p = [',']
  | .rightParen => p = [')']

theorem isOfKind_kindOfName {p : List Char} (hne : p ≠ []) (h : ∀ c ∈ p, isNameChar c = true) :
    IsOfKind p (kindOfName p) := by
  unfold kindOfName
  split
  · assumption
  split
  · assumption
  · exact ⟨hne, h, ‹_›, ‹_›⟩

theorem judge_eq_blank_iff {p : List Char} : judge p = .blank ↔ p.all isSkip = true := by
  unfold judge
  split
  · rename_i hp
    simp [hp, isSkip]
  split
  · rename_i hp
    simp [hp, isSkip]
  split
  · rename_i hp
    simp [hp, isSkip]
  split
  · rename_i hp
    simp [hp]
  · rename_i hp
    split
    · simp [hp]
    · split <;> simp [hp]

theorem isOfKind_of_judge {p : List Char} {kind : TokenKind} (hp : IsPiece p)
    (h : judge p = .token kind) : IsOfKind p kind := by
  rcases hp with hword | hblank | ⟨c, rfl, hw, hs⟩
  · rw [judge_wordRun hword] at h
    split at h
    · rename_i hall
      obtain rfl := Verdict.token.inj h
      exact isOfKind_kindOfName hword.1 (List.all_eq_true.1 hall)
    split at h
    · rename_i hall
      obtain rfl := Verdict.token.inj h
      exact ⟨hword.1, List.all_eq_true.1 hall⟩
    · cases h
  · rw [judge_blankRun hblank] at h
    cases h
  · rw [judge_lone hw hs] at h
    split at h
    · rename_i hc
      obtain rfl := Verdict.token.inj h
      rw [hc]
      rfl
    split at h
    · rename_i hc
      obtain rfl := Verdict.token.inj h
      rw [hc]
      rfl
    split at h
    · rename_i hc
      obtain rfl := Verdict.token.inj h
      rw [hc]
      rfl
    · cases h

/-- What is a token of some kind is one piece, and judged to be of that kind. -/
theorem judge_of_isOfKind {p : List Char} {kind : TokenKind} (h : IsOfKind p kind) :
    IsPiece p ∧ judge p = .token kind := by
  have hname : ∀ {q : List Char}, q ≠ [] → (∀ c ∈ q, isNameChar c = true) →
      IsPiece q ∧ judge q = .token (kindOfName q) := by
    intro q hne hq
    have hword : IsWordRun q := ⟨hne, fun c hc => isWordChar_of_isNameChar (hq c hc)⟩
    exact ⟨Or.inl hword, by rw [judge_wordRun hword, if_pos (List.all_eq_true.2 hq)]⟩
  cases kind with
  | defWord =>
    obtain rfl : p = ['d', 'e', 'f'] := h
    exact hname (by simp) (List.all_eq_true.1 rfl)
  | endWord =>
    obtain rfl : p = ['e', 'n', 'd'] := h
    exact hname (by simp) (List.all_eq_true.1 rfl)
  | identifier =>
    obtain ⟨hne, hchars, hdef, hend⟩ := h
    have hkind : kindOfName p = .identifier := by rw [kindOfName, if_neg hdef, if_neg hend]
    rw [← hkind]
    exact hname hne hchars
  | integer =>
    obtain ⟨hne, hdigits⟩ := h
    have hword : IsWordRun p := ⟨hne, fun c hc => isWordChar_of_isDigit (hdigits c hc)⟩
    obtain ⟨c, hc⟩ := List.exists_mem_of_ne_nil p hne
    have hnames : p.all isNameChar = false := all_isNameChar_eq_false hc (hdigits c hc)
    refine ⟨Or.inl hword, ?_⟩
    rw [judge_wordRun hword, hnames, if_pos (List.all_eq_true.2 hdigits)]
    rfl
  | leftParen =>
    obtain rfl : p = ['('] := h
    exact ⟨.singleton '(', rfl⟩
  | comma =>
    obtain rfl : p = [','] := h
    exact ⟨.singleton ',', rfl⟩
  | rightParen =>
    obtain rfl : p = [')'] := h
    exact ⟨.singleton ')', rfl⟩

theorem judge_eq_bad_iff {p : List Char} (hp : IsPiece p) : judge p = .bad ↔ Bad p := by
  rcases hp with hword | hblank | ⟨c, rfl, hw, hs⟩
  · have hlone : ¬IsLone p := by
      rintro ⟨c, rfl, hc, -⟩
      simp [hword.2 c List.mem_cons_self] at hc
    have hdigit := hword.any_isDigit
    have hname := hword.any_isNameChar
    rw [judge_wordRun hword, Bad, ← List.any_eq_true, ← List.any_eq_true, hdigit, hname]
    cases p.all isNameChar <;> cases p.all Char.isDigit <;> simp [hword, hlone]
  · have hword : ¬IsWordRun p := fun h => by
      obtain ⟨c, hc⟩ := List.exists_mem_of_ne_nil p h.1
      simpa [not_isWordChar_of_isSkip (hblank.2 c hc)] using h.2 c hc
    have hlone : ¬IsLone p := by
      rintro ⟨c, rfl, -, hc⟩
      simp [hblank.2 c List.mem_cons_self] at hc
    simp [judge_blankRun hblank, Bad, hword, hlone]
  · have hword : ¬IsWordRun [c] := fun h => by simp [h.2 c List.mem_cons_self] at hw
    have hlone : IsLone [c] := ⟨c, rfl, hw, hs⟩
    rw [judge_lone hw hs]
    simp only [Bad, hword, hlone, false_and, true_and, false_or, ne_eq, List.singleton_inj]
    split
    · simp [*]
    split
    · simp [*]
    split <;> simp [*]

/-! ## Byte ranges -/

/-- How many bytes of UTF-8 a text takes. -/
def byteLength (cs : List Char) : Nat := (String.ofList cs).utf8ByteSize

@[simp] theorem byteLength_nil : byteLength [] = 0 := rfl

@[simp] theorem byteLength_cons (c : Char) (cs : List Char) :
    byteLength (c :: cs) = c.utf8Size + byteLength cs := by
  rw [byteLength, String.ofList_cons, String.utf8ByteSize_append, String.utf8ByteSize_singleton]
  rfl

@[simp] theorem byteLength_append (as bs : List Char) :
    byteLength (as ++ bs) = byteLength as + byteLength bs := by
  rw [byteLength, String.ofList_append, String.utf8ByteSize_append]
  rfl

/-- Only the empty text takes no byte, and that is blank. -/
theorem byteLength_pos {cs : List Char} (h : cs.all isSkip = false) : 0 < byteLength cs := by
  cases cs with
  | nil => cases h
  | cons c cs =>
    have hc := c.utf8Size_pos
    rw [byteLength_cons]
    omega

@[simp] theorem offset_afterAll (p : Position) (cs : List Char) :
    (p.afterAll cs).offset = p.offset + byteLength cs := by
  induction cs generalizing p with
  | nil => rfl
  | cons c cs ih =>
    have hafter : (p.after c).offset = p.offset + c.utf8Size := by
      unfold Position.after
      split <;> rfl
    rw [Position.afterAll_cons, ih, hafter, byteLength_cons, Nat.add_assoc]

/-- The pieces that are not blank, each with the byte offsets of its two ends. The first piece
    starts at byte `n`. -/
def spansFrom : Nat → List (List Char) → List ((Nat × Nat) × List Char)
  | _, [] => []
  | n, p :: ps =>
    if p.all isSkip then spansFrom (n + byteLength p) ps
    else ((n, n + byteLength p), p) :: spansFrom (n + byteLength p) ps

/-- A range in `spansFrom` is where its piece stands. -/
theorem exists_of_mem_spansFrom {n : Nat} {ps : List (List Char)} {e : (Nat × Nat) × List Char}
    (h : e ∈ spansFrom n ps) :
    (∃ before after, ps.flatten = before ++ e.2 ++ after ∧ e.1.1 = n + byteLength before) ∧
      e.1.2 = e.1.1 + byteLength e.2 ∧ e.2.all isSkip = false := by
  induction ps generalizing n with
  | nil => simp [spansFrom] at h
  | cons p ps ih =>
    have htail : e ∈ spansFrom (n + byteLength p) ps →
        (∃ before after, (p :: ps).flatten = before ++ e.2 ++ after ∧
          e.1.1 = n + byteLength before) ∧
        e.1.2 = e.1.1 + byteLength e.2 ∧ e.2.all isSkip = false := by
      intro he
      obtain ⟨⟨before, after, hflat, hstart⟩, hstop⟩ := ih he
      refine ⟨⟨p ++ before, after, ?_, ?_⟩, hstop⟩
      · rw [List.flatten_cons, hflat]
        simp only [List.append_assoc]
      · rw [hstart, byteLength_append, Nat.add_assoc]
    rw [spansFrom] at h
    split at h
    · exact htail h
    · rename_i hp
      rcases List.mem_cons.1 h with rfl | h
      · exact ⟨⟨[], ps.flatten, by simp, by simp⟩, rfl, by simpa using hp⟩
      · exact htail h

theorem pairwise_spansFrom (n : Nat) (ps : List (List Char)) :
    (spansFrom n ps).Pairwise fun a b => a.1.2 ≤ b.1.1 := by
  induction ps generalizing n with
  | nil => exact .nil
  | cons p ps ih =>
    rw [spansFrom]
    split
    · exact ih _
    · refine List.pairwise_cons.2 ⟨?_, ih _⟩
      intro e he
      obtain ⟨⟨before, after, -, hstart⟩, -⟩ := exists_of_mem_spansFrom he
      rw [hstart]
      exact Nat.le_add_right _ _

/-- A character outside all ranges of `spansFrom` is blank. -/
theorem isSkip_or_mem_spansFrom {n : Nat} {ps : List (List Char)} {before after : List Char}
    {c : Char} (h : ps.flatten = before ++ c :: after) :
    isSkip c = true ∨
      ∃ e ∈ spansFrom n ps, e.1.1 ≤ n + byteLength before ∧ n + byteLength before < e.1.2 := by
  induction ps generalizing n before with
  | nil => simp at h
  | cons p ps ih =>
    -- a character behind the first piece
    have htail : ∀ skipped, before = p ++ skipped → ps.flatten = skipped ++ c :: after →
        isSkip c = true ∨ ∃ e ∈ spansFrom n (p :: ps),
          e.1.1 ≤ n + byteLength before ∧ n + byteLength before < e.1.2 := by
      rintro skipped rfl hps
      rcases ih hps with hskip | ⟨e, he, hlo, hhi⟩
      · exact Or.inl hskip
      · rw [byteLength_append, ← Nat.add_assoc]
        refine Or.inr ⟨e, ?_, hlo, hhi⟩
        rw [spansFrom]
        split
        · exact he
        · exact List.mem_cons_of_mem _ he
    rw [List.flatten_cons, List.append_eq_append_iff] at h
    rcases h with ⟨skipped, hbefore, hps⟩ | ⟨inner, rfl, hps⟩
    · exact htail skipped hbefore hps
    cases inner with
    | nil => exact htail [] (by simp) (by simpa using hps.symm)
    | cons d inner =>
      obtain ⟨rfl, -⟩ := List.cons.inj hps
      rw [spansFrom]
      split
      · rename_i hall
        exact Or.inl (List.all_eq_true.1 hall c (by simp))
      · have hpos := c.utf8Size_pos
        refine Or.inr ⟨_, List.mem_cons_self, Nat.le_add_right _ _, ?_⟩
        simp only [byteLength_append, byteLength_cons]
        omega

/-! ## The two outcomes of a scan -/

/-- Tokens that a scan of pieces gives, the first of which starts at `p`. -/
theorem scanPieces_eq_ok {ps : List (List Char)} {p : Position} {ts : List Token}
    (h : scanPieces p ps = .ok ts) :
    (∀ q ∈ ps, judge q ≠ .bad) ∧
      ts.map (fun t => (t.span, t.text.toList)) = spansFrom p.offset ps ∧
      ∀ t ∈ ts, t.text.toList ∈ ps ∧ judge t.text.toList = .token t.kind := by
  induction ps generalizing p ts with
  | nil =>
    cases h
    exact ⟨by simp, rfl, by simp⟩
  | cons q ps ih =>
    rw [scanPieces] at h
    split at h
    · rename_i hq
      obtain ⟨hgood, hspans, hkinds⟩ := ih h
      refine ⟨List.forall_mem_cons.2 ⟨by simp [hq], hgood⟩, ?_, ?_⟩
      · rw [hspans, spansFrom, if_pos (judge_eq_blank_iff.1 hq), offset_afterAll]
      · intro t ht
        exact ⟨List.mem_cons_of_mem _ (hkinds t ht).1, (hkinds t ht).2⟩
    · rename_i kind hq
      cases hrest : scanPieces (p.afterAll q) ps with
      | error e => simp [hrest, Except.map] at h
      | ok us =>
        rw [hrest] at h
        obtain rfl := Except.ok.inj h
        obtain ⟨hgood, hspans, hkinds⟩ := ih hrest
        have hblank : ¬q.all isSkip = true := by
          rw [← judge_eq_blank_iff, hq]
          exact Verdict.noConfusion
        refine ⟨List.forall_mem_cons.2 ⟨by simp [hq], hgood⟩, ?_, ?_⟩
        · rw [List.map_cons, hspans, spansFrom, if_neg hblank, offset_afterAll]
          simp [span, byteLength]
        · refine List.forall_mem_cons.2 ⟨by simp [hq], ?_⟩
          intro t ht
          exact ⟨List.mem_cons_of_mem _ (hkinds t ht).1, (hkinds t ht).2⟩
    · cases h

theorem scanPieces_eq_error {ps : List (List Char)} {p : Position} {e : ScanError}
    (h : scanPieces p ps = .error e) :
    ∃ before bad after, ps = before ++ bad :: after ∧ (∀ q ∈ before, judge q ≠ .bad) ∧
      judge bad = .bad ∧ e = ⟨.ofList bad, p.afterAll before.flatten⟩ := by
  induction ps generalizing p with
  | nil => cases h
  | cons q ps ih =>
    -- an error behind the first piece
    have htail : judge q ≠ .bad → scanPieces (p.afterAll q) ps = .error e →
        ∃ before bad after, q :: ps = before ++ bad :: after ∧
          (∀ q ∈ before, judge q ≠ .bad) ∧ judge bad = .bad ∧
          e = ⟨.ofList bad, p.afterAll before.flatten⟩ := by
      intro hq hrest
      obtain ⟨before, bad, after, rfl, hgood, hbad, rfl⟩ := ih hrest
      refine ⟨q :: before, bad, after, rfl, List.forall_mem_cons.2 ⟨hq, hgood⟩, hbad, ?_⟩
      rw [List.flatten_cons, Position.afterAll_append]
    rw [scanPieces] at h
    split at h
    · rename_i hq
      exact htail (by simp [hq]) h
    · rename_i kind hq
      cases hrest : scanPieces (p.afterAll q) ps with
      | error e' =>
        rw [hrest] at h
        obtain rfl := Except.error.inj h
        exact htail (by simp [hq]) hrest
      | ok us => simp [hrest, Except.map] at h
    · rename_i hq
      obtain rfl := Except.error.inj h
      exact ⟨[], q, ps, rfl, by simp, hq, rfl⟩

/-! ## The scan of a text -/

/-- Tokens stand in a text one behind the other, each where its span says, and what stands
    between them is blank. -/
structure Spaced (cs : List Char) (ts : List Token) : Prop where
  nonempty : ∀ t ∈ ts, t.span.1 < t.span.2
  increasing : ts.Pairwise fun a b => a.span.2 ≤ b.span.1
  inPlace : ∀ t ∈ ts, ∃ before after, cs = before ++ t.text.toList ++ after ∧
    t.span = (byteLength before, byteLength before + byteLength t.text.toList)
  gaps : ∀ before c after, cs = before ++ c :: after →
    (∀ t ∈ ts, byteLength before < t.span.1 ∨ t.span.2 ≤ byteLength before) → isSkip c = true

theorem spaced_of_spansFrom {ps : List (List Char)} {ts : List Token}
    (h : ts.map (fun t => (t.span, t.text.toList)) = spansFrom 0 ps) :
    Spaced ps.flatten ts := by
  have hmem : ∀ t ∈ ts, (t.span, t.text.toList) ∈ spansFrom 0 ps := by
    intro t ht
    rw [← h]
    exact List.mem_map.2 ⟨t, ht, rfl⟩
  refine ⟨?_, ?_, ?_, ?_⟩
  · intro t ht
    obtain ⟨-, hstop, hblank⟩ := exists_of_mem_spansFrom (hmem t ht)
    have hpos := byteLength_pos hblank
    simp only at hstop hpos
    omega
  · have hpair := pairwise_spansFrom 0 ps
    rwa [← h, List.pairwise_map] at hpair
  · intro t ht
    obtain ⟨⟨before, after, hflat, hstart⟩, hstop, -⟩ := exists_of_mem_spansFrom (hmem t ht)
    simp only [Nat.zero_add] at hstart hstop
    exact ⟨before, after, hflat, Prod.ext hstart (by rw [hstop, hstart])⟩
  · intro before c after hcs hout
    rcases isSkip_or_mem_spansFrom hcs with hskip | ⟨e, he, hlo, hhi⟩
    · exact hskip
    · rw [← h] at he
      obtain ⟨t, ht, rfl⟩ := List.mem_map.1 he
      have hspan := hout t ht
      simp only [Nat.zero_add] at hlo hhi
      omega

/-- What a scan of a text with the pieces `ps` gives: the pieces that are not blank as tokens, or
    the leftmost bad piece. -/
def Found (ps : List (List Char)) : Except ScanError (List Token) → Prop
  | .ok ts =>
    ts.map (fun t => (t.span, t.text.toList)) = spansFrom 0 ps ∧
      (∀ t ∈ ts, IsOfKind t.text.toList t.kind) ∧ Spaced ps.flatten ts
  | .error e =>
    ∃ before bad after, ps = before ++ bad :: after ∧ (∀ p ∈ before, ¬Bad p) ∧ Bad bad ∧
      e.text.toList = bad

/-- **A scan finds the pieces of its text.** Each text falls into pieces in one way, and scanning
    it by longest matches yields its pieces as tokens, unless one of them is bad. -/
theorem scan_finds_pieces (source : String) :
    ∃ ps, (∀ qs, Decomposition source.toList qs ↔ qs = ps) ∧
      ((∃ ts, scan source = .ok ts) ↔ ∀ p ∈ ps, ¬Bad p) ∧ Found ps (scan source) ∧
      ∀ r, Lexes .start source.toList r ↔ r = scan source := by
  have hdec := decomposition_pieces source.toList
  have hbad : ∀ p ∈ pieces source.toList, judge p = .bad ↔ Bad p :=
    fun p hp => judge_eq_bad_iff (hdec.isPiece p hp)
  have hfound : Found (pieces source.toList) (scan source) ∧
      ((∃ ts, scan source = .ok ts) ↔ ∀ p ∈ pieces source.toList, ¬Bad p) := by
    cases hscan : scan source with
    | ok ts =>
      obtain ⟨hgood, hspans, hkinds⟩ := scanPieces_eq_ok hscan
      refine ⟨⟨hspans, ?_, spaced_of_spansFrom hspans⟩, ?_⟩
      · intro t ht
        exact isOfKind_of_judge (hdec.isPiece _ (hkinds t ht).1) (hkinds t ht).2
      · exact iff_of_true ⟨ts, rfl⟩ fun p hp h => hgood p hp ((hbad p hp).2 h)
    | error e =>
      obtain ⟨before, bad, after, hps, hgood, hjudge, rfl⟩ := scanPieces_eq_error hscan
      have hmem : bad ∈ pieces source.toList := by simp [hps]
      have hbefore : ∀ p ∈ before, ¬Bad p := by
        intro p hp h
        exact hgood p hp ((hbad p (by simp [hps, hp])).2 h)
      have hbad' : Bad bad := (hbad bad hmem).1 hjudge
      refine ⟨⟨before, bad, after, hps, hbefore, hbad', by simp⟩, ?_⟩
      exact iff_of_false (by simp) fun h => h bad hmem hbad'
  refine ⟨pieces source.toList, fun qs => ?_, hfound.2, hfound.1, fun r => lexes_iff⟩
  constructor
  · exact Decomposition.eq_pieces
  · rintro rfl
    exact hdec

end KeyCombo.Token

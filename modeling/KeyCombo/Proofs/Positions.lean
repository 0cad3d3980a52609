import KeyCombo.Proofs.Scanning
import Mathlib.Data.List.DropRight

set_option autoImplicit false

/-! # Positions

A scan carries the position along from piece to piece and never looks back. What it carries is a
function of the text in front of it alone (`afterAll_start`): the bytes of that text, its line
feeds, and the characters behind the last of them. Each character brings a position strictly
forward, so the positions of tokens increase. -/

namespace KeyCombo

open Text Token

/-! ## The position behind a text -/

namespace Position

/-- The position behind a text. Its line is one more than the number of line feeds, its column one
    more than the number of characters behind the last of them. -/
def behind (before : List Char) : Position where
  offset := byteLength before
  line := 1 + before.count '\n'
  column := 1 + (before.rtakeWhile (· ≠ '\n')).length

theorem behind_nil : behind [] = start := rfl

theorem behind_concat (before : List Char) (c : Char) :
    behind (before ++ [c]) = (behind before).after c := by
  by_cases hc : c = '\n'
  · subst hc
    simp [behind, after, Nat.add_assoc]
  · simp [behind, after, hc, Nat.add_assoc]

/-- **The invariant of a scan**: the position carried from the start of a text is the one behind the
    text passed over. -/
theorem afterAll_start (before : List Char) : start.afterAll before = behind before := by
  induction before using List.reverseRecOn with
  | nil => exact behind_nil.symm
  | append_singleton before c ih =>
    rw [afterAll_append, ih, behind_concat]
    rfl

theorem behind_append (as bs : List Char) : behind (as ++ bs) = (behind as).afterAll bs := by
  rw [← afterAll_start, afterAll_append, afterAll_start]

/-! ## The order of positions -/

/-- Whether a position is on an earlier line than another one, or further to the left on the same
    line. -/
def Precedes (p q : Position) : Prop := p.line < q.line ∨ p.line = q.line ∧ p.column < q.column

theorem Precedes.trans {p q r : Position} (hpq : p.Precedes q) (hqr : q.Precedes r) :
    p.Precedes r := by
  unfold Precedes at *
  omega

theorem precedes_after (p : Position) (c : Char) : p.Precedes (p.after c) := by
  unfold after
  split
  · exact Or.inl (Nat.lt_succ_self p.line)
  · exact Or.inr ⟨rfl, Nat.lt_succ_self p.column⟩

theorem precedes_afterAll (p : Position) {cs : List Char} (h : cs ≠ []) :
    p.Precedes (p.afterAll cs) := by
  induction cs generalizing p with
  | nil => exact absurd rfl h
  | cons c cs ih =>
    rw [afterAll_cons]
    by_cases hcs : cs = []
    · rw [hcs, afterAll_nil]
      exact p.precedes_after c
    · exact (p.precedes_after c).trans (ih (p.after c) hcs)

end Position

/-! ## Positions of tokens -/

namespace Token

/-- What a scan makes of its first piece, if it succeeds. -/
theorem scanPieces_cons_eq_ok {p : Position} {q : List Char} {ps : List (List Char)}
    {ts : List Token} : scanPieces p (q :: ps) = .ok ts ↔
      (judge q = .blank ∧ scanPieces (p.afterAll q) ps = .ok ts) ∨
        ∃ kind us, judge q = .token kind ∧ scanPieces (p.afterAll q) ps = .ok us ∧
          ts = ⟨kind, .ofList q, p⟩ :: us := by
  rw [scanPieces]
  cases judge q with
  | blank => simp
  | token kind => cases scanPieces (p.afterAll q) ps <;> simp [Except.map, eq_comm]
  | bad => simp

/-- Whether a text is one of the given pieces, the first of which begins at `start`, and begins at a
    position itself. The offset tells pieces with the same text apart. -/
def StandsFrom (start : Position) (ps : List (List Char)) (text : String) (p : Position) : Prop :=
  ∃ before after, ps = before ++ text.toList :: after ∧ p = start.afterAll before.flatten

theorem standsFrom_cons {start p : Position} {q : List Char} {ps : List (List Char)}
    {text : String} : StandsFrom start (q :: ps) text p ↔
      (text = .ofList q ∧ p = start) ∨ StandsFrom (start.afterAll q) ps text p := by
  constructor
  · rintro ⟨before, after, hps, rfl⟩
    cases before with
    | nil =>
      obtain ⟨rfl, rfl⟩ := List.cons.inj hps
      exact Or.inl ⟨String.ofList_toList.symm, rfl⟩
    | cons r before =>
      obtain ⟨rfl, rfl⟩ := List.cons.inj hps
      exact Or.inr ⟨before, after, rfl, by rw [List.flatten_cons, Position.afterAll_append]⟩
  · rintro (⟨rfl, rfl⟩ | ⟨before, after, rfl, rfl⟩)
    · exact ⟨[], ps, by simp, rfl⟩
    · exact ⟨q :: before, after, rfl, by rw [List.flatten_cons, Position.afterAll_append]⟩

/-- The tokens of a scan are the pieces that are not blank, each where it stands. -/
theorem exists_token_iff {ps : List (List Char)} {start p : Position} {ts : List Token}
    {text : String} (h : scanPieces start ps = .ok ts) :
    (∃ t ∈ ts, t.text = text ∧ t.position = p) ↔
      StandsFrom start ps text p ∧ text.toList.all isSkip = false := by
  induction ps generalizing start ts with
  | nil =>
    cases h
    simp [StandsFrom]
  | cons q ps ih =>
    rw [standsFrom_cons]
    obtain ⟨hq, hrest⟩ | ⟨kind, us, hq, hrest, rfl⟩ := scanPieces_cons_eq_ok.1 h
    · -- a blank piece is no token, and no other text is that piece
      rw [ih hrest]
      rw [judge_eq_blank_iff] at hq
      refine ⟨fun hp => ⟨Or.inr hp.1, hp.2⟩, ?_⟩
      rintro ⟨⟨rfl, -⟩ | hp, hblank⟩
      · rw [String.toList_ofList, hq] at hblank
        cases hblank
      · exact ⟨hp, hblank⟩
    · have hblank : q.all isSkip = false := by
        rw [← Bool.not_eq_true, ← judge_eq_blank_iff, hq]
        exact Verdict.noConfusion
      simp only [List.mem_cons, or_and_right, exists_or, exists_eq_left, ← ih hrest]
      refine or_congr_left ⟨?_, ?_⟩
      · rintro ⟨rfl, rfl⟩
        exact ⟨⟨rfl, rfl⟩, by simpa using hblank⟩
      · rintro ⟨⟨rfl, rfl⟩, -⟩
        exact ⟨rfl, rfl⟩

/-- Each token of a scan precedes the tokens behind it. -/
theorem pairwise_precedes {ps : List (List Char)} {start : Position} {ts : List Token}
    (h : scanPieces start ps = .ok ts) :
    ts.Pairwise fun a b => a.position.Precedes b.position := by
  induction ps generalizing start ts with
  | nil =>
    cases h
    exact .nil
  | cons q ps ih =>
    obtain ⟨-, hrest⟩ | ⟨kind, us, hq, hrest, rfl⟩ := scanPieces_cons_eq_ok.1 h
    · exact ih hrest
    · have hne : q ≠ [] := by
        rintro rfl
        cases hq
      refine List.pairwise_cons.2 ⟨?_, ih hrest⟩
      intro t ht
      obtain ⟨⟨before, after, -, hposition⟩, -⟩ := (exists_token_iff hrest).1 ⟨t, ht, rfl, rfl⟩
      rw [hposition, ← Position.afterAll_append]
      exact start.precedes_afterAll (by simp [hne])

/-- Whether a text is a piece of a source and begins at a position: that behind the text in front
    of it. -/
def Stands (source text : String) (p : Position) : Prop :=
  ∃ before after, pieces source.toList = before ++ text.toList :: after ∧
    p = .behind before.flatten

theorem standsFrom_start {source text : String} {p : Position} :
    StandsFrom .start (pieces source.toList) text p ↔ Stands source text p := by
  simp only [StandsFrom, Stands, Position.afterAll_start]

/-- Whether the positions in the outcome of a scan are exact. The tokens are the pieces that are not
    blank where they stand, one preceding the other, and an error names a bad piece where it
    stands. -/
def WellPlaced (source : String) : Except ScanError (List Token) → Prop
  | .ok ts =>
    (∀ text p, (∃ t ∈ ts, t.text = text ∧ t.position = p) ↔
        Stands source text p ∧ text.toList.all isSkip = false) ∧
      ts.Pairwise fun a b => a.position.Precedes b.position
  | .error e => Stands source e.text e.position ∧ Bad e.text.toList

/-- **Positions are exact.** Every token, and the piece that a failing scan reports, is at the line
    and the column that the text in front of it leads to. -/
theorem scan_wellPlaced (source : String) : WellPlaced source (scan source) := by
  cases hscan : scan source with
  | ok ts =>
    refine ⟨fun text p => ?_, pairwise_precedes hscan⟩
    rw [exists_token_iff hscan, standsFrom_start]
  | error e =>
    obtain ⟨before, bad, after, hpieces, -, hbad, rfl⟩ := scanPieces_eq_error hscan
    have hpiece : IsPiece bad :=
      (decomposition_pieces source.toList).isPiece bad (by simp [hpieces])
    refine ⟨⟨before, after, by simpa using hpieces, Position.afterAll_start before.flatten⟩, ?_⟩
    rw [String.toList_ofList]
    exact (judge_eq_bad_iff hpiece).1 hbad

example : scan "f(\r\n\x00a é)" = .error ⟨"é", ⟨7, 2, 4⟩⟩ := by cbv

end Token

end KeyCombo

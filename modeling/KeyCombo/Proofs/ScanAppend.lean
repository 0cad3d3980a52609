import KeyCombo.Proofs.LongestMatch

set_option autoImplicit false

/-! # Scanning a text in parts

A text can be scanned in two parts wherever the cut does not go through a word
(`scanPieces_append`). A cut through a run of blanks is no obstacle: the run falls into two pieces,
and neither of them is a token (`scanPieces_blank_cons`). -/

namespace KeyCombo.Token

open Text

/-! ## Blanks in front of a text -/

theorem scanPieces_blank_cons {c : Char} (hc : isSkip c = true) (p : Position) (cs : List Char) :
    scanPieces p (pieces (c :: cs)) = scanPieces (p.after c) (pieces cs) := by
  have hdec := decomposition_pieces cs
  have hone : judge [c] = .blank := judge_blankRun ⟨List.cons_ne_nil _ _, by simpa using hc⟩
  rw [pieces_cons]
  unfold attach
  split
  · rename_i d run rest heq
    rw [heq] at hdec ⊢
    have hd : IsPiece (d :: run) := hdec.isPiece _ List.mem_cons_self
    split
    · rename_i hcd
      -- the blank joins a piece, which therefore is blank as well
      have hskip : isSkip d = true := by
        rcases joins_eq_true.1 hcd with ⟨hw, -⟩ | ⟨-, hd⟩
        · rw [not_isWordChar_of_isSkip hc] at hw
          cases hw
        · exact hd
      have hrun : IsBlankRun (d :: run) := hd.isBlankRun List.mem_cons_self hskip
      have hrun' : IsBlankRun (c :: d :: run) :=
        ⟨List.cons_ne_nil _ _, List.forall_mem_cons.2 ⟨hc, hrun.2⟩⟩
      rw [scanPieces, scanPieces, judge_blankRun hrun, judge_blankRun hrun']
      rfl
    · rw [scanPieces, hone]
      rfl
  · rw [scanPieces, hone]
    rfl

theorem scanPieces_blank_append {run : List Char} (h : ∀ c ∈ run, isSkip c = true) (p : Position)
    (cs : List Char) :
    scanPieces p (pieces (run ++ cs)) = scanPieces (p.afterAll run) (pieces cs) := by
  induction run generalizing p with
  | nil => rfl
  | cons c run ih =>
    rw [List.forall_mem_cons] at h
    rw [List.cons_append, scanPieces_blank_cons h.1, ih h.2, Position.afterAll_cons]

/-! ## Cuts -/

/-- Whether the cut between two texts does not go through a word. -/
def CutsNoWord (as bs : List Char) : Prop :=
  ∀ c ∈ as.getLast?, ∀ d ∈ bs.head?, ¬(isWordChar c = true ∧ isWordChar d = true)

theorem CutsNoWord.of_append {as bs cs : List Char} (h : CutsNoWord (as ++ bs) cs) :
    CutsNoWord bs cs := by
  intro c hc
  exact h c (List.mem_getLast?_append_of_mem_getLast? hc)

/-- The last character of a piece that is not blank does not join what stands behind a cut. -/
theorem CutsNoWord.joins_eq_false {q bs : List Char} (hq : IsPiece q) (hblank : ¬IsBlankRun q)
    (h : CutsNoWord q bs) : ∀ c ∈ q.getLast?, ∀ d ∈ bs.head?, joins c d = false := by
  intro c hc d hd
  rw [← Bool.not_eq_true, joins_eq_true]
  rintro (hw | ⟨hs, -⟩)
  · exact h c hc d hd hw
  · exact hblank (hq.isBlankRun (List.mem_of_mem_getLast? hc) hs)

theorem scanPieces_append_of_decomposition {bs : List Char} (ps : List (List Char)) :
    ∀ (as : List Char) (p : Position), Decomposition as ps → CutsNoWord as bs →
      scanPieces p (pieces (as ++ bs)) = (scanPieces p ps).bind fun ts =>
        (scanPieces (p.afterAll as) (pieces bs)).map fun us => ts ++ us := by
  induction ps with
  | nil =>
    intro as p hdec _
    obtain rfl : [] = as := hdec.flatten_eq
    cases hbs : scanPieces p (pieces bs) <;> simp [scanPieces, Except.bind, Except.map, hbs]
  | cons q ps ih =>
    intro as p hdec hcut
    have hq : IsPiece q := hdec.isPiece q List.mem_cons_self
    obtain rfl : q ++ ps.flatten = as := hdec.flatten_eq
    by_cases hlast : ps = [] ∧ IsBlankRun q
    · -- the last piece is blank and may go on behind the cut
      obtain ⟨rfl, hblank⟩ := hlast
      rw [List.flatten_nil, List.append_nil, scanPieces_blank_append hblank.2, scanPieces,
        judge_blankRun hblank]
      cases scanPieces (p.afterAll q) (pieces bs) <;>
        simp [scanPieces, Except.bind, Except.map]
    have hrest : CutsNoWord ps.flatten bs := hcut.of_append
    have hseam : ∀ c ∈ q.getLast?, ∀ d ∈ (ps.flatten ++ bs).head?, joins c d = false := by
      cases hps : ps with
      | nil =>
        have hblank : ¬IsBlankRun q := fun h => hlast ⟨hps, h⟩
        rw [hps, List.flatten_nil, List.append_nil] at hcut
        exact hcut.joins_eq_false hq hblank
      | cons q' ps' =>
        have hne : ps.flatten ≠ [] := by
          have hq' : IsPiece q' := hdec.isPiece q' (by simp [hps])
          simp [hps, hq'.ne_nil]
        rw [← hps, List.head?_append_of_ne_nil _ hne]
        exact hdec.joins_eq_false
    rw [List.append_assoc, pieces_run_append hq.ne_nil hq.isChain hseam, scanPieces, scanPieces,
      ih _ _ hdec.tail hrest, Position.afterAll_append]
    cases judge q with
    | blank => rfl
    | token kind =>
      cases hps : scanPieces (p.afterAll q) ps with
      | error e => rfl
      | ok ts =>
        cases scanPieces ((p.afterAll q).afterAll ps.flatten) (pieces bs) <;>
          simp [Except.bind, Except.map]
    | bad => rfl

/-- **Scanning in two parts.** -/
theorem scanPieces_append {as bs : List Char} (h : CutsNoWord as bs) (p : Position) :
    scanPieces p (pieces (as ++ bs)) = (scanPieces p (pieces as)).bind fun ts =>
      (scanPieces (p.afterAll as) (pieces bs)).map fun us => ts ++ us :=
  scanPieces_append_of_decomposition _ as p (decomposition_pieces as) h

theorem cutsNoWord_of_left {c : Char} (hc : isWordChar c = false) (bs : List Char) :
    CutsNoWord [c] bs := by
  intro d hd e _ hw
  obtain rfl : c = d := by simpa using hd
  simp [hc] at hw

theorem cutsNoWord_of_right {d : Char} (hd : isWordChar d = false) (as bs : List Char) :
    CutsNoWord as (d :: bs) := by
  intro c _ e he hw
  obtain rfl : d = e := by simpa using he
  simp [hd] at hw

/-! ## Texts whose scan is known -/

/-- Wherever a text starts, its scan gives tokens of which `D` holds. -/
def ScansTo (cs : List Char) (D : List Token → Prop) : Prop :=
  ∀ p, ∃ ts, scanPieces p (pieces cs) = .ok ts ∧ D ts

namespace ScansTo

variable {as bs : List Char} {D E : List Token → Prop}

theorem imp (h : ScansTo as D) (hDE : ∀ ts, D ts → E ts) : ScansTo as E := by
  intro p
  obtain ⟨ts, hts, hD⟩ := h p
  exact ⟨ts, hts, hDE ts hD⟩

theorem append (has : ScansTo as D) (hbs : ScansTo bs E) (hcut : CutsNoWord as bs) :
    ScansTo (as ++ bs) fun ts => ∃ us vs, ts = us ++ vs ∧ D us ∧ E vs := by
  intro p
  obtain ⟨us, hus, hD⟩ := has p
  obtain ⟨vs, hvs, hE⟩ := hbs (p.afterAll as)
  refine ⟨us ++ vs, ?_, us, vs, rfl, hD, hE⟩
  rw [scanPieces_append hcut, hus]
  simp [Except.bind, Except.map, hvs]

theorem blanks {run : List Char} (hrun : ∀ c ∈ run, isSkip c = true) (h : ScansTo bs D) :
    ScansTo (run ++ bs) D := by
  intro p
  rw [scanPieces_blank_append hrun]
  exact h (p.afterAll run)

theorem blank {c : Char} (hc : isSkip c = true) (h : ScansTo bs D) : ScansTo (c :: bs) D :=
  h.blanks (List.forall_mem_singleton.2 hc)

theorem piece {q : List Char} {kind : TokenKind} (hq : IsPiece q) (h : judge q = .token kind) :
    ScansTo q fun ts => ∃ t, ts = [t] ∧ t.kind = kind ∧ t.text = .ofList q := by
  intro p
  have hpieces : pieces (q ++ []) = q :: pieces [] :=
    pieces_run_append hq.ne_nil hq.isChain (by simp)
  rw [List.append_nil] at hpieces
  refine ⟨[⟨kind, .ofList q, p⟩], ?_, ⟨kind, .ofList q, p⟩, rfl, rfl, rfl⟩
  rw [hpieces, scanPieces, h]
  rfl

/-- A punctuation mark in front of a text. -/
theorem mark {c : Char} {kind : TokenKind} (hw : isWordChar c = false)
    (hjudge : judge [c] = .token kind) (hbs : ScansTo bs E) :
    ScansTo (c :: bs) fun ts => ∃ t us, ts = t :: us ∧ t.kind = kind ∧ E us := by
  refine ((piece (.singleton c) hjudge).append hbs (cutsNoWord_of_left hw bs)).imp ?_
  rintro _ ⟨_, us, rfl, ⟨t, rfl, ht, -⟩, hus⟩
  exact ⟨t, us, rfl, ht, hus⟩

end ScansTo

end KeyCombo.Token

import KeyCombo.Text.Piece
import Mathlib.Data.List.Chain

set_option autoImplicit false

/-! # The decomposition of a text

What a decomposition into pieces is, said without the way in which the pieces are built: every
piece is a run of word characters, a run of blank characters or one other character, and no run
can be continued into its neighbour. Each text has exactly one decomposition, `pieces`
(`decomposition_pieces`, `Decomposition.eq_pieces`).

Everything rests on one equation, `pieces_run_append`: a run whose last character does not join
the text behind it is a piece, and the pieces of that text follow. -/

namespace KeyCombo.Text

/-! ## Classes of characters -/

theorem isWordChar_of_isNameChar {c : Char} (h : isNameChar c = true) : isWordChar c = true := by
  simp [isWordChar, h]

theorem isWordChar_of_isDigit {c : Char} (h : c.isDigit = true) : isWordChar c = true := by
  simp [isWordChar, h]

theorem not_isDigit_of_isNameChar {c : Char} (h : isNameChar c = true) : c.isDigit = false := by
  rw [isNameChar, Bool.or_eq_true, decide_eq_true_eq] at h
  rcases h with h | rfl
  · rw [← Bool.not_eq_true]
    intro hd
    change (decide ('A'.val ≤ c.val ∧ c.val ≤ 'Z'.val) ||
      (decide ('a'.val ≤ c.val) && decide (c.val ≤ 'z'.val))) = true at h
    simp only [Char.isDigit, Bool.or_eq_true, Bool.and_eq_true, decide_eq_true_eq,
      UInt32.le_iff_toNat_le] at h hd
    have h9 : '9'.val.toNat = 57 := rfl
    have hA : 'A'.val.toNat = 65 := rfl
    have ha : 'a'.val.toNat = 97 := rfl
    omega
  · decide

/-- A text with a digit is no name. -/
theorem all_isNameChar_eq_false {p : List Char} {c : Char} (hc : c ∈ p) (hd : c.isDigit = true) :
    p.all isNameChar = false := by
  rw [List.all_eq_false]
  refine ⟨c, hc, fun hn => ?_⟩
  rw [not_isDigit_of_isNameChar hn] at hd
  cases hd

/-- A word character is a digit or a name character, and not both. -/
theorem isDigit_eq_not_isNameChar {c : Char} (h : isWordChar c = true) :
    c.isDigit = !isNameChar c := by
  cases hn : isNameChar c with
  | true => exact not_isDigit_of_isNameChar hn
  | false => simpa [isWordChar, hn] using h

theorem not_isWordChar_of_isSkip {c : Char} (h : isSkip c = true) : isWordChar c = false := by
  simp only [isSkip, Bool.or_eq_true, decide_eq_true_eq] at h
  rcases h with (((((rfl | rfl) | rfl) | rfl) | rfl) | rfl) | rfl <;> decide

theorem joins_eq_true {c d : Char} : joins c d = true ↔
    (isWordChar c = true ∧ isWordChar d = true) ∨ (isSkip c = true ∧ isSkip d = true) := by
  simp [joins]

theorem joins_eq_false_of_not_isWordChar {c d : Char} (hw : isWordChar c = false)
    (hs : isSkip c = false) : joins c d = false ∧ joins d c = false := by
  simp [joins, hw, hs]

/-! ## Pieces of a run -/

/-- The first piece of a text starts with its first character. -/
theorem pieces_cons_eq (c : Char) (cs : List Char) :
    ∃ run rest, pieces (c :: cs) = (c :: run) :: rest := by
  rw [pieces_cons]
  unfold attach
  split
  · split <;> exact ⟨_, _, rfl⟩
  · exact ⟨_, _, rfl⟩

/-- A run is a piece if its last character does not join the text behind it. -/
theorem pieces_run_append {run cs : List Char} (hne : run ≠ [])
    (hrun : run.IsChain fun c d => joins c d = true)
    (hseam : ∀ c ∈ run.getLast?, ∀ d ∈ cs.head?, joins c d = false) :
    pieces (run ++ cs) = run :: pieces cs := by
  induction run with
  | nil => exact absurd rfl hne
  | cons c run ih =>
    cases run with
    | nil =>
      cases cs with
      | nil => rfl
      | cons d cs =>
        obtain ⟨run, rest, hd⟩ := pieces_cons_eq d cs
        have hcd : joins c d = false := hseam c rfl d rfl
        rw [List.singleton_append, pieces_cons, hd]
        simp [attach, hcd]
    | cons d run =>
      rw [List.isChain_cons_cons] at hrun
      have htail : pieces ((d :: run) ++ cs) = (d :: run) :: pieces cs :=
        ih (List.cons_ne_nil _ _) hrun.2 hseam
      rw [List.cons_append, pieces_cons, htail]
      simp [attach, hrun.1]

/-! ## Decompositions -/

/-- One or more word characters. -/
def IsWordRun (p : List Char) : Prop := p ≠ [] ∧ ∀ c ∈ p, isWordChar c = true

theorem isWordRun_of_all {p : List Char} (hne : p ≠ []) (h : p.all isWordChar = true) :
    IsWordRun p :=
  ⟨hne, List.all_eq_true.1 h⟩

theorem IsWordRun.any_isDigit {p : List Char} (h : IsWordRun p) :
    p.any Char.isDigit = !p.all isNameChar := by
  rw [List.not_all_eq_any_not, Bool.eq_iff_iff, List.any_eq_true, List.any_eq_true]
  refine exists_congr fun c => and_congr_right fun hc => ?_
  rw [isDigit_eq_not_isNameChar (h.2 c hc)]

theorem IsWordRun.any_isNameChar {p : List Char} (h : IsWordRun p) :
    p.any isNameChar = !p.all Char.isDigit := by
  rw [List.not_all_eq_any_not, Bool.eq_iff_iff, List.any_eq_true, List.any_eq_true]
  refine exists_congr fun c => and_congr_right fun hc => ?_
  rw [isDigit_eq_not_isNameChar (h.2 c hc), Bool.not_not]

/-- One or more blank characters. -/
def IsBlankRun (p : List Char) : Prop := p ≠ [] ∧ ∀ c ∈ p, isSkip c = true

/-- One character that belongs to no run. -/
def IsLone (p : List Char) : Prop := ∃ c, p = [c] ∧ isWordChar c = false ∧ isSkip c = false

/-- A run of word characters, a run of blank characters, or one other character. -/
def IsPiece (p : List Char) : Prop := IsWordRun p ∨ IsBlankRun p ∨ IsLone p

/-- Whether two pieces are not runs of one class. -/
def Apart (p q : List Char) : Prop :=
  ¬(IsWordRun p ∧ IsWordRun q) ∧ ¬(IsBlankRun p ∧ IsBlankRun q)

namespace IsPiece

variable {p q : List Char} {c d : Char}

theorem ne_nil (h : IsPiece p) : p ≠ [] := by
  rcases h with h | h | ⟨c, rfl, _⟩
  · exact h.1
  · exact h.1
  · exact List.cons_ne_nil _ _

/-- One word character makes a piece a run of word characters. -/
theorem isWordRun (h : IsPiece p) (hc : c ∈ p) (hw : isWordChar c = true) : IsWordRun p := by
  rcases h with h | h | ⟨d, rfl, hd, _⟩
  · exact h
  · simp [not_isWordChar_of_isSkip (h.2 c hc)] at hw
  · simp [List.mem_singleton.1 hc, hd] at hw

/-- One blank character makes a piece a run of blank characters. -/
theorem isBlankRun (h : IsPiece p) (hc : c ∈ p) (hs : isSkip c = true) : IsBlankRun p := by
  rcases h with h | h | ⟨d, rfl, _, hd⟩
  · exact absurd (h.2 c hc) (by simp [not_isWordChar_of_isSkip hs])
  · exact h
  · simp [List.mem_singleton.1 hc, hd] at hs

/-- Neighbours within a piece join. -/
theorem isChain (h : IsPiece p) : p.IsChain fun c d => joins c d = true := by
  rcases h with h | h | ⟨c, rfl, _⟩
  · refine List.Pairwise.isChain (List.pairwise_of_forall_mem_list fun c hc d hd => ?_)
    exact joins_eq_true.2 (Or.inl ⟨h.2 c hc, h.2 d hd⟩)
  · refine List.Pairwise.isChain (List.pairwise_of_forall_mem_list fun c hc d hd => ?_)
    exact joins_eq_true.2 (Or.inr ⟨h.2 c hc, h.2 d hd⟩)
  · exact List.isChain_singleton c

/-- Characters of two pieces that are not runs of one class do not join. -/
theorem joins_eq_false (hp : IsPiece p) (hq : IsPiece q) (hpq : Apart p q) (hc : c ∈ p)
    (hd : d ∈ q) : joins c d = false := by
  rw [← Bool.not_eq_true, joins_eq_true]
  rintro (⟨hcw, hdw⟩ | ⟨hcs, hds⟩)
  · exact hpq.1 ⟨hp.isWordRun hc hcw, hq.isWordRun hd hdw⟩
  · exact hpq.2 ⟨hp.isBlankRun hc hcs, hq.isBlankRun hd hds⟩

/-- A single character is a piece. -/
theorem singleton (c : Char) : IsPiece [c] := by
  by_cases hw : isWordChar c = true
  · exact Or.inl ⟨List.cons_ne_nil _ _, fun d hd => List.mem_singleton.1 hd ▸ hw⟩
  · by_cases hs : isSkip c = true
    · exact Or.inr (Or.inl ⟨List.cons_ne_nil _ _, fun d hd => List.mem_singleton.1 hd ▸ hs⟩)
    · exact Or.inr (Or.inr ⟨c, rfl, by simpa using hw, by simpa using hs⟩)

/-- A piece stays one with a character in front that joins its first one. -/
theorem cons {run : List Char} (h : IsPiece (d :: run)) (hcd : joins c d = true) :
    IsPiece (c :: d :: run) := by
  rcases joins_eq_true.1 hcd with ⟨hc, hd⟩ | ⟨hc, hd⟩
  · have hrun : IsWordRun (d :: run) := h.isWordRun List.mem_cons_self hd
    exact Or.inl ⟨List.cons_ne_nil _ _, List.forall_mem_cons.2 ⟨hc, hrun.2⟩⟩
  · have hrun : IsBlankRun (d :: run) := h.isBlankRun List.mem_cons_self hd
    exact Or.inr (Or.inl ⟨List.cons_ne_nil _ _, List.forall_mem_cons.2 ⟨hc, hrun.2⟩⟩)

/-- A run stays one with a character behind it that joins its last one. -/
theorem concat {d : Char} (h : IsPiece p) (hc : c ∈ p.getLast?) (hcd : joins c d = true) :
    IsPiece (p ++ [d]) := by
  have hmem : c ∈ p := List.mem_of_mem_getLast? hc
  rcases joins_eq_true.1 hcd with ⟨hcw, hdw⟩ | ⟨hcs, hds⟩
  · have hrun : IsWordRun p := h.isWordRun hmem hcw
    exact Or.inl ⟨by simp, List.forall_mem_append.2 ⟨hrun.2, by simpa using hdw⟩⟩
  · have hrun : IsBlankRun p := h.isBlankRun hmem hcs
    exact Or.inr (Or.inl ⟨by simp, List.forall_mem_append.2 ⟨hrun.2, by simpa using hds⟩⟩)

end IsPiece

theorem Apart.cons {c d : Char} {run q : List Char} (h : Apart (d :: run) q) :
    Apart (c :: d :: run) q := by
  refine ⟨fun hw => h.1 ⟨⟨List.cons_ne_nil _ _, ?_⟩, hw.2⟩,
    fun hb => h.2 ⟨⟨List.cons_ne_nil _ _, ?_⟩, hb.2⟩⟩
  · exact fun e he => hw.1.2 e (List.mem_cons_of_mem _ he)
  · exact fun e he => hb.1.2 e (List.mem_cons_of_mem _ he)

theorem apart_singleton {c d : Char} {run : List Char} (h : joins c d = false) :
    Apart [c] (d :: run) := by
  rw [← Bool.not_eq_true, joins_eq_true] at h
  constructor
  · rintro ⟨hc, hd⟩
    exact h (Or.inl ⟨hc.2 c List.mem_cons_self, hd.2 d List.mem_cons_self⟩)
  · rintro ⟨hc, hd⟩
    exact h (Or.inr ⟨hc.2 c List.mem_cons_self, hd.2 d List.mem_cons_self⟩)

/-- Pieces that make up a text, no two neighbours of which could be one run. -/
structure Decomposition (cs : List Char) (ps : List (List Char)) : Prop where
  flatten_eq : ps.flatten = cs
  isPiece : ∀ p ∈ ps, IsPiece p
  maximal : ps.IsChain Apart

namespace Decomposition

variable {cs : List Char} {ps : List (List Char)}

/-- A character in front of a text joins the first piece or becomes one. -/
theorem attach (c : Char) (h : Decomposition cs ps) :
    Decomposition (c :: cs) (attach c ps) := by
  obtain ⟨rfl, hpiece, hmax⟩ := h
  unfold Text.attach
  split
  · rename_i d run rest
    rw [List.forall_mem_cons] at hpiece
    split
    · rename_i hcd
      rw [List.isChain_cons] at hmax
      have hhead : ∀ q ∈ rest.head?, Apart (c :: d :: run) q :=
        fun q hq => (hmax.1 q hq).cons
      exact ⟨by simp, List.forall_mem_cons.2 ⟨hpiece.1.cons hcd, hpiece.2⟩,
        List.isChain_cons.2 ⟨hhead, hmax.2⟩⟩
    · rename_i hcd
      exact ⟨by simp, List.forall_mem_cons.2 ⟨.singleton c, List.forall_mem_cons.2 hpiece⟩,
        List.isChain_cons_cons.2 ⟨apart_singleton (by simpa using hcd), hmax⟩⟩
  · rename_i hnil
    cases ps with
    | nil => exact ⟨by simp, by simpa using .singleton c, List.isChain_singleton _⟩
    | cons p ps =>
      -- the first piece is not empty, so the first arm of `attach` has been taken
      obtain ⟨d, run, rfl⟩ := List.exists_cons_of_ne_nil (hpiece p List.mem_cons_self).ne_nil
      exact absurd rfl (hnil d run ps)

/-- The last character of a piece does not join the text behind it. -/
theorem joins_eq_false {p : List Char} (h : Decomposition cs (p :: ps)) :
    ∀ c ∈ p.getLast?, ∀ d ∈ ps.flatten.head?, joins c d = false := by
  intro c hc d hd
  cases ps with
  | nil => simp at hd
  | cons q ps =>
    have hp : IsPiece p := h.isPiece p List.mem_cons_self
    have hq : IsPiece q := h.isPiece q (List.mem_cons_of_mem _ List.mem_cons_self)
    have hdq : d ∈ q := by
      rw [List.flatten_cons, List.head?_append_of_ne_nil _ hq.ne_nil] at hd
      exact List.mem_of_mem_head? hd
    exact hp.joins_eq_false hq (List.isChain_cons_cons.1 h.maximal).1
      (List.mem_of_mem_getLast? hc) hdq

theorem tail {p : List Char} (h : Decomposition cs (p :: ps)) :
    Decomposition ps.flatten ps :=
  ⟨rfl, fun q hq => h.isPiece q (List.mem_cons_of_mem _ hq), h.maximal.tail⟩

/-- A decomposition is the list of pieces. -/
theorem eq_pieces (h : Decomposition cs ps) : ps = pieces cs := by
  induction ps generalizing cs with
  | nil =>
    rw [← h.flatten_eq]
    rfl
  | cons p ps ih =>
    have hp : IsPiece p := h.isPiece p List.mem_cons_self
    rw [← h.flatten_eq, List.flatten_cons,
      pieces_run_append hp.ne_nil hp.isChain h.joins_eq_false, ← ih h.tail]

end Decomposition

/-- Each text has a decomposition. -/
theorem decomposition_pieces (cs : List Char) : Decomposition cs (pieces cs) := by
  induction cs with
  | nil => exact ⟨rfl, by simp, .nil⟩
  | cons c cs ih => exact ih.attach c

end KeyCombo.Text

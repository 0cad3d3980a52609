import KeyCombo.HomeRow
import KeyCombo.Proofs.BoundedNumerals
import KeyCombo.Proofs.Except
import KeyCombo.Proofs.Trimming
import Mathlib.Data.List.Intervals

set_option autoImplicit false

/-! # The format of home-row lists

Which texts are lists of positions, and which positions they list, told without the reader: how a
list falls into parts (`IsSplit`) and what one part stands for (`Denotes`). The reader works out
both as they are told here, so it takes a text exactly if there is a part and every part stands for
something. -/

namespace KeyCombo.HomeRow

open Numeral (Spells)
open Text (Padded Trims)

/-! ## Parts -/

/-- Which parts a list has: the texts between its commas, without the blanks around them, but for
    those that are blank. -/
def IsSplit (cs : List Char) (parts : List (List Char)) : Prop :=
  ∃ chunks cores, chunks ≠ [] ∧ (∀ chunk ∈ chunks, ',' ∉ chunk) ∧ [','].intercalate chunks = cs ∧
    List.Forall₂ Trims chunks cores ∧ parts = cores.filter (· ≠ [])

theorem not_mem_of_mem_splitOn {α : Type} [BEq α] [LawfulBEq α] {x : α} {cs chunk : List α}
    (h : chunk ∈ cs.splitOn x) : x ∉ chunk := by
  induction cs generalizing chunk with
  | nil => simp_all
  | cons c cs ih =>
    obtain ⟨first, rest, hsplit⟩ := List.exists_cons_of_ne_nil (List.splitOn_ne_nil x cs)
    rw [hsplit] at ih
    rw [List.splitOn_cons_eq_if_modifyHead, hsplit] at h
    split at h
    -- a separator opens a new piece, any other character goes to the first one
    · rcases List.mem_cons.1 h with rfl | h
      · exact List.not_mem_nil
      · exact ih h
    · rename_i hc
      rcases List.mem_cons.1 h with rfl | h
      · refine mt List.mem_cons.1 (not_or.2 ⟨?_, ih List.mem_cons_self⟩)
        rintro rfl
        exact hc (beq_self_eq_true _)
      · exact ih (List.mem_cons_of_mem _ h)

theorem forall₂_trims_iff {chunks cores : List (List Char)} :
    List.Forall₂ Trims chunks cores ↔ chunks.map Text.trim = cores := by
  rw [← List.forall₂_eq_eq_eq, List.forall₂_map_left_iff]
  simp only [Text.trim_eq_iff]

theorem isSplit_iff {cs : List Char} {ps : List (List Char)} : IsSplit cs ps ↔ parts cs = ps := by
  constructor
  · rintro ⟨chunks, cores, hne, hcomma, rfl, hcores, rfl⟩
    rw [parts, List.splitOn_intercalate _ hcomma hne, forall₂_trims_iff.1 hcores]
  · rintro rfl
    exact ⟨cs.splitOn ',', _, List.splitOn_ne_nil _ _, fun _ => not_mem_of_mem_splitOn,
      List.intercalate_splitOn _, forall₂_trims_iff.2 rfl, rfl⟩

/-! ## What a part stands for -/

/-- Whether a part is written as a range with the given ends. The first dash parts them, and blanks
    around them do not count. -/
inductive IsRange : List Char → List Char → List Char → Prop
  | intro {left right l r : List Char} (hdash : '-' ∉ left) (hl : Trims left l)
      (hr : Trims right r) : IsRange (left ++ '-' :: right) l r

/-- The positions that a part stands for: a position on its own, or a range of them. -/
inductive Denotes : List Char → List Nat → Prop
  | position {part : List Char} {n : Nat} (hn : Spells UInt64.size part n) : Denotes part [n]
  | range {part l r : List Char} {a b : Nat} (hpart : IsRange part l r)
      (ha : Spells UInt64.size l a) (hb : Spells UInt64.size r b) (hab : a ≤ b) :
      Denotes part (List.Ico a (b + 1))

variable {part l r : List Char} {ps : List Nat} {n : Nat}

theorem exists_isRange (h : '-' ∈ part) : ∃ l r, IsRange part l r := by
  obtain ⟨left, right, rfl, hdash⟩ := List.eq_append_cons_of_mem h
  exact ⟨_, _, .intro hdash (Text.trims_trim left) (Text.trims_trim right)⟩

theorem IsRange.ne_nil (h : IsRange part l r) : part ≠ [] := by
  cases h
  exact List.append_ne_nil_of_right_ne_nil _ (List.cons_ne_nil _ _)

theorem dash_not_mem_of_spells (h : Spells UInt64.size part n) : '-' ∉ part := fun hdash =>
  absurd (h.plus_or_digit '-' hdash) (by decide)

theorem position_eq_ok {error : Numeral.Fault → HomeRowError} {cs : List Char} :
    position error cs = .ok n ↔ Spells UInt64.size cs n := by
  rw [position, except_mapError_eq_ok]
  exact Numeral.readBelow_eq_ok_iff (by decide)

theorem expand_of_no_dash (h : '-' ∉ part) :
    expand part = (position (.badPosition (.ofList part)) part).map fun n => [n] := by
  rw [expand, Text.dropWhile_ne_of_not_mem h]
  cases position (.badPosition (.ofList part)) part <;> rfl

theorem IsRange.expand_eq (h : IsRange part l r) : expand part = (do
    let first ← position (.badStart (.ofList part)) l
    let last ← position (.badEnd (.ofList part)) r
    if first ≤ last then return List.Ico first (last + 1)
    else throw (.emptyRange (.ofList part))) := by
  cases h with
  | @intro left right _ _ hdash hl hr =>
    rw [expand, Text.dropWhile_ne_append hdash]
    simp only [Text.takeWhile_ne_append hdash, hl.trim_eq, hr.trim_eq, List.Ico]

/-- A part is expanded exactly if it stands for positions, to those. -/
theorem expand_eq_ok_iff : expand part = .ok ps ↔ Denotes part ps := by
  constructor
  · intro h
    by_cases hdash : '-' ∈ part
    · obtain ⟨l, r, hpart⟩ := exists_isRange hdash
      simp only [hpart.expand_eq, except_bind_eq_ok, position_eq_ok] at h
      obtain ⟨a, ha, b, hb, h⟩ := h
      split at h
      · rename_i hab
        cases h
        exact .range hpart ha hb hab
      · cases h
    · rw [expand_of_no_dash hdash, except_map_eq_ok] at h
      obtain ⟨n, hn, rfl⟩ := h
      exact .position (position_eq_ok.1 hn)
  · intro h
    cases h with
    | position hn =>
      rw [expand_of_no_dash (dash_not_mem_of_spells hn), position_eq_ok.2 hn]
      rfl
    | range hpart ha hb hab =>
      rw [hpart.expand_eq, position_eq_ok.2 ha, position_eq_ok.2 hb]
      exact if_pos hab

theorem Denotes.ne_nil (h : Denotes part ps) : ps ≠ [] := by
  cases h with
  | position => exact List.cons_ne_nil _ _
  | range _ _ _ hab =>
    rw [ne_eq, List.Ico.eq_empty_iff]
    omega

theorem Denotes.part_ne_nil (h : Denotes part ps) : part ≠ [] := by
  cases h with
  | position hn => exact hn.ne_nil
  | range hpart => exact hpart.ne_nil

/-! ## Lists -/

variable {ks : List (List Char)} {pss : List (List Nat)}

theorem mapM_expand_eq_ok : ks.mapM expand = .ok pss ↔ List.Forall₂ Denotes ks pss := by
  rw [mapM_eq_ok_iff]
  simp only [expand_eq_ok_iff]

/-- Only no parts stand for no positions. -/
theorem flatten_eq_nil_iff (h : List.Forall₂ Denotes ks pss) : pss.flatten = [] ↔ ks = [] := by
  cases h with
  | nil => simp
  | cons hpart _ => simp [hpart.ne_nil]

theorem parse_eq_bind (text : String) : parse text = (parts text.toList).mapM expand >>= fun pss =>
    if pss.flatten = [] then .error .noPositions else .ok pss.flatten := by
  rfl

/-- A text is read exactly if it has a part and all its parts stand for positions, to all of
    those. -/
theorem parse_eq_ok_iff {text : String} : parse text = .ok ps ↔
    ∃ parts pss, IsSplit text.toList parts ∧ parts ≠ [] ∧ List.Forall₂ Denotes parts pss ∧
      ps = pss.flatten := by
  rw [parse_eq_bind, except_bind_eq_ok]
  simp only [mapM_expand_eq_ok, isSplit_iff]
  constructor
  · rintro ⟨pss, hpss, h⟩
    split at h
    · cases h
    · rename_i hne
      cases h
      exact ⟨_, pss, rfl, mt (flatten_eq_nil_iff hpss).2 hne, hpss, rfl⟩
  · rintro ⟨_, pss, rfl, hne, hpss, rfl⟩
    exact ⟨pss, hpss, if_neg (mt (flatten_eq_nil_iff hpss).1 hne)⟩

/-- A range may end at the last position there is. -/
example : parse "18446744073709551614-18446744073709551615" =
    .ok [18446744073709551614, 18446744073709551615] :=
  rfl

end KeyCombo.HomeRow

import KeyCombo.Combo.Step
import KeyCombo.Proofs.ComboClasses
import Mathlib

set_option autoImplicit false

/-! # The history of a set of combos

What a set holds is told by the steps taken with it so far: of each class it holds the combo that
was inserted first since the class was last removed (`Reflects`). One step keeps that up
(`Reflects.perform`), and the answers follow from it.

A table that finds its members by their hashes takes the same steps with the same answers, because
combos of one class have one hash. -/

namespace KeyCombo

namespace Combo

/-! ## Key presses -/

/-- What a combo stands for: two keys in no order, and what they yield together. -/
def press (c : Combo) : Sym2 String × String := (s(c.left, c.right), c.result)

theorem sameClass_iff_press_eq {a b : Combo} : SameClass a b ↔ a.press = b.press := by
  rw [press, press, Prod.mk.injEq, Sym2.eq_iff, and_comm]
  rfl

theorem equivalence_same : Equivalence fun a b : Combo => a.same b = true := by
  simp only [same_eq_true_iff]
  exact ⟨SameClass.refl, SameClass.symm, SameClass.trans⟩

/-- Same combos give the same data to be hashed. -/
theorem hash_eq_of_same {a b : Combo} (h : a.same b = true) : a.key = b.key ∧ hash a = hash b := by
  have hkey : a.key = b.key := of_decide_eq_true h
  exact ⟨hkey, congrArg (fun k : String × String × String => hash k) hkey⟩

end Combo

namespace ComboSet

open Combo

variable {s : ComboSet} {c d : Combo}

/-! ## Members -/

/-- No two members are in one class. -/
theorem pairwise_not_sameClass (s : ComboSet) : s.toList.Pairwise fun a b => ¬SameClass a b := by
  refine s.distinct.imp fun {a b} h => ?_
  rw [← same_eq_true_iff, h]
  exact Bool.false_ne_true

theorem nodup_presses (s : ComboSet) : (s.toList.map press).Nodup :=
  List.pairwise_map.2 (s.pairwise_not_sameClass.imp (mt sameClass_iff_press_eq.2))

/-- Two members of one class are one member. -/
theorem eq_of_sameClass (hc : c ∈ s.toList) (hd : d ∈ s.toList) (h : SameClass c d) : c = d :=
  List.inj_on_of_nodup_map (nodup_presses s) hc hd (sameClass_iff_press_eq.1 h)

theorem get?_eq_some_iff : s.get? c = some d ↔ d ∈ s.toList ∧ SameClass d c := by
  constructor
  · intro h
    have hsame := List.find?_some h
    exact ⟨List.mem_of_find?_eq_some h, same_eq_true_iff.1 hsame⟩
  · rintro ⟨hd, hdc⟩
    have hsome : (s.get? c).isSome = true :=
      List.find?_isSome.2 ⟨d, hd, same_eq_true_iff.2 hdc⟩
    obtain ⟨e, he⟩ := Option.isSome_iff_exists.1 hsome
    have hec := List.find?_some he
    rw [he, eq_of_sameClass (List.mem_of_find?_eq_some he) hd
      ((same_eq_true_iff.1 hec).trans hdc.symm)]

/-- Combos of one class ask for one member. -/
theorem get?_congr (h : SameClass c d) : s.get? c = s.get? d := by
  refine Option.ext fun e => ?_
  rw [get?_eq_some_iff, get?_eq_some_iff]
  exact and_congr_right fun _ => ⟨fun hec => hec.trans h, fun hed => hed.trans h.symm⟩

theorem mem_toList_iff : d ∈ s.toList ↔ s.get? d = some d := by
  rw [get?_eq_some_iff, and_iff_left (SameClass.refl d)]

theorem contains_eq_isSome_get? : s.contains c = (s.get? c).isSome := by
  rw [Bool.eq_iff_iff, contains_iff, Option.isSome_iff_exists]
  simp only [get?_eq_some_iff]

/-- A combo that is inserted comes after a member of its class. -/
theorem get?_insert :
    (s.insert d).get? c = (s.get? c).or (if SameClass d c then some d else none) := by
  rw [get?, toList_insert]
  by_cases hd : s.contains d = true
  · rw [if_pos hd]
    by_cases hdc : SameClass d c
    · obtain ⟨e, he, hed⟩ := contains_iff.1 hd
      have hsome : s.get? c = some e := get?_eq_some_iff.2 ⟨he, hed.trans hdc⟩
      rw [hsome, Option.some_or]
      exact hsome
    · rw [if_neg hdc, Option.or_none]
      rfl
  · rw [if_neg hd, List.find?_append, List.find?_singleton]
    simp only [same_eq_true_iff]
    rfl

theorem get?_erase : (s.erase d).get? c = if SameClass d c then none else s.get? c := by
  refine Option.ext fun e => ?_
  have hmem : e ∈ (s.erase d).toList ↔ e ∈ s.toList ∧ ¬SameClass e d := by
    rw [toList_erase, List.mem_filter, Bool.not_eq_true', ← Bool.not_eq_true, same_eq_true_iff]
  rw [get?_eq_some_iff, hmem]
  by_cases hdc : SameClass d c
  · rw [if_pos hdc]
    simp only [reduceCtorEq, iff_false]
    rintro ⟨⟨-, hed⟩, hec⟩
    exact hed (hec.trans hdc.symm)
  · rw [if_neg hdc, get?_eq_some_iff]
    constructor
    · rintro ⟨⟨he, -⟩, hec⟩
      exact ⟨he, hec⟩
    · rintro ⟨he, hec⟩
      exact ⟨⟨he, fun hed => hdc (hed.symm.trans hec)⟩, hec⟩

/-- As many members as key presses. -/
theorem size_eq_encard (s : ComboSet) :
    (s.size : ℕ∞) = {p | ∃ c ∈ s.toList, c.press = p}.encard := by
  have hset : {p | ∃ c ∈ s.toList, c.press = p} = ((s.toList.map press).toFinset : Set _) := by
    ext p
    simp
  rw [hset, Set.encard_coe_eq_coe_finsetCard, List.toFinset_card_of_nodup (nodup_presses s),
    List.length_map, size]

/-! ## What the past tells -/

/-- Whether a step removes the class of a combo. -/
def Step.removes (c : Combo) : Step → Bool
  | .remove d => SameClass d c
  | _ => false

/-- The combo that a step inserts, if it is in the class of `c`. -/
def Step.inserted? (c : Combo) : Step → Option Combo
  | .insert d => if SameClass d c then some d else none
  | _ => none

/-- The steps since the class of a combo was last removed, or all if it never was. -/
def sinceRemoval (c : Combo) (past : List Step) : List Step :=
  past.rtakeWhile fun step => !step.removes c

/-- The combo that was inserted first of its class since the class was last removed. -/
def firstInserted? (c : Combo) (past : List Step) : Option Combo :=
  (sinceRemoval c past).findSome? (Step.inserted? c)

/-- How one more step changes what is told by the past. -/
theorem firstInserted?_concat (c : Combo) (past : List Step) (step : Step) :
    firstInserted? c (past ++ [step]) =
      if step.removes c then none else (firstInserted? c past).or (step.inserted? c) := by
  rw [firstInserted?, sinceRemoval, List.rtakeWhile_concat]
  by_cases h : step.removes c = true
  · rw [if_pos h, if_neg (by simpa using h)]
    rfl
  · rw [if_neg h, if_pos (by simpa using h), List.findSome?_append, List.findSome?_singleton]
    rfl

/-- Whether a set holds of each class what the past tells. -/
def Reflects (past : List Step) (s : ComboSet) : Prop :=
  ∀ c, s.get? c = firstInserted? c past

theorem reflects_empty : Reflects [] empty := fun _ => rfl

/-- **One step** keeps up what the past tells. -/
theorem Reflects.perform {past : List Step} (h : Reflects past s) (step : Step) :
    Reflects (past ++ [step]) (perform step s).2 := by
  intro c
  rw [firstInserted?_concat, ← h c]
  cases step with
  | insert d => exact get?_insert
  | contains d => exact (Option.or_none ..).symm
  | remove d =>
    simp only [ComboSet.perform, get?_erase, Step.removes, Step.inserted?, Option.or_none,
      decide_eq_true_eq]
  | get d => exact (Option.or_none ..).symm

/-! ## Whole runs -/

/-- How a set stands to the steps behind it. -/
structure Keeps (past : List Step) (s : ComboSet) : Prop where
  mem_iff : ∀ c, c ∈ s.toList ↔ firstInserted? c past = some c
  apart : s.toList.Pairwise fun a b => ¬SameClass a b
  size_eq : (s.size : ℕ∞) = {p | ∃ c ∈ s.toList, c.press = p}.encard

/-- What a set answers to a step, given the steps behind it. -/
def Step.Answers (past : List Step) (s : ComboSet) : Step → Answer → Prop
  | .insert c, .flag new => new = true ↔ ¬∃ d ∈ s.toList, SameClass d c
  | .contains c, .flag found | .remove c, .flag found =>
    found = true ↔ ∃ d ∈ s.toList, SameClass d c
  | .get c, .member found => found = firstInserted? c past
  | _, _ => False

/-- A run of steps, with the size of the set behind each of its answers. -/
inductive Runs : List Step → ComboSet → List Step → List (Answer × Nat) → Prop
  | done {past : List Step} {s : ComboSet} (hkeeps : Keeps past s) : Runs past s [] []
  | step {past steps : List Step} {s s' : ComboSet} {step : Step} {answer : Answer}
      {log : List (Answer × Nat)} (hkeeps : Keeps past s) (hanswer : step.Answers past s answer)
      (hrest : Runs (past ++ [step]) s' steps log) :
      Runs past s (step :: steps) ((answer, s'.size) :: log)

theorem Reflects.keeps {past : List Step} (h : Reflects past s) : Keeps past s where
  mem_iff c := by rw [mem_toList_iff, h c]
  apart := s.pairwise_not_sameClass
  size_eq := s.size_eq_encard

theorem Reflects.answers {past : List Step} (h : Reflects past s) (step : Step) :
    step.Answers past s (ComboSet.perform step s).1 := by
  cases step with
  | insert c =>
    change (!s.contains c) = true ↔ _
    rw [Bool.not_eq_true', ← Bool.not_eq_true, contains_iff]
  | contains c => exact contains_iff
  | remove c => exact contains_iff
  | get c => exact h c

theorem Reflects.runs {past : List Step} (h : Reflects past s) (steps : List Step) :
    Runs past s steps (performAll steps s) := by
  induction steps generalizing past s with
  | nil => exact .done h.keeps
  | cons step steps ih => exact .step h.keeps (h.answers step) (ih (h.perform step))

/-! ## Finding members by their hashes -/

section Hashing

/-- Combos count as equal if they are the same key press with the same result. -/
local instance : BEq Combo := ⟨Combo.same⟩

local instance : EquivBEq Combo where
  rfl := equivalence_same.refl _
  symm := equivalence_same.symm
  trans := equivalence_same.trans

local instance : LawfulHashable Combo := ⟨fun _ _ h => (hash_eq_of_same h).2⟩

/-- Carries out a step on a table that finds its members by their hashes. -/
def performHashed : Step → Std.HashSet Combo → Answer × Std.HashSet Combo
  | .insert c, t => (.flag (!t.contains c), t.insert c)
  | .contains c, t => (.flag (t.contains c), t)
  | .remove c, t => (.flag (t.contains c), t.erase c)
  | .get c, t => (.member (t.get? c), t)

/-- Carries out steps one after the other on a table. -/
def performAllHashed : List Step → Std.HashSet Combo → List (Answer × Nat) :=
  performAllWith performHashed Std.HashSet.size

/-- Whether a table has the members of a set. -/
def Matches (t : Std.HashSet Combo) (s : ComboSet) : Prop := ∀ c, t.get? c = s.get? c

variable {t : Std.HashSet Combo}

theorem Matches.contains_eq (h : Matches t s) (c : Combo) : t.contains c = s.contains c := by
  rw [Std.HashSet.contains_eq_isSome_get?, h c, contains_eq_isSome_get?]

theorem contains_table_iff : t.contains c = true ↔ ∃ d ∈ t.toList, SameClass d c := by
  rw [← Std.HashSet.contains_toList, List.contains_eq_any_beq, List.any_eq_true]
  refine exists_congr fun d => and_congr_right fun _ => ?_
  exact same_eq_true_iff.trans ⟨SameClass.symm, SameClass.symm⟩

/-- Both have one member for each of the same key presses. -/
theorem Matches.size_eq (h : Matches t s) : t.size = s.size := by
  have htable : (t.toList.map press).Nodup := by
    refine List.pairwise_map.2 (Std.HashSet.distinct_toList.imp fun {a b} hab heq => ?_)
    have hsame : a.same b = true := same_eq_true_iff.2 (sameClass_iff_press_eq.2 heq)
    exact Bool.false_ne_true (hab.symm.trans hsame)
  have hmember : ∀ c, (∃ d ∈ t.toList, SameClass d c) ↔ ∃ d ∈ s.toList, SameClass d c := by
    intro c
    rw [← contains_table_iff, h.contains_eq, contains_iff]
  have hperm : (t.toList.map press).Perm (s.toList.map press) := by
    refine (List.perm_ext_iff_of_nodup htable s.nodup_presses).2 fun p => ?_
    simp only [List.mem_map]
    constructor
    · rintro ⟨c, hc, rfl⟩
      obtain ⟨d, hd, hdc⟩ := (hmember c).1 ⟨c, hc, .refl c⟩
      exact ⟨d, hd, sameClass_iff_press_eq.1 hdc⟩
    · rintro ⟨c, hc, rfl⟩
      obtain ⟨d, hd, hdc⟩ := (hmember c).2 ⟨c, hc, .refl c⟩
      exact ⟨d, hd, sameClass_iff_press_eq.1 hdc⟩
  have hlength := hperm.length_eq
  rw [List.length_map, List.length_map, Std.HashSet.length_toList] at hlength
  exact hlength

theorem matches_empty : Matches ∅ empty := fun _ => Std.HashSet.get?_empty

/-- A step on a table answers as on a set, and both have the same members behind it. -/
theorem Matches.perform (h : Matches t s) (step : Step) :
    (performHashed step t).1 = (ComboSet.perform step s).1 ∧
      Matches (performHashed step t).2 (ComboSet.perform step s).2 := by
  cases step with
  | insert c =>
    refine ⟨by simp only [performHashed, ComboSet.perform, h.contains_eq], fun d => ?_⟩
    change (t.insert c).get? d = (s.insert c).get? d
    have hmem : c ∈ t ↔ (s.get? c).isSome = true := by
      rw [← Std.HashSet.contains_iff_mem, h.contains_eq, contains_eq_isSome_get?]
    have heq : (c == d) = true ↔ SameClass c d := same_eq_true_iff
    simp only [Std.HashSet.get?_insert, get?_insert, h d, hmem, heq]
    by_cases hcd : SameClass c d
    · rw [get?_congr hcd]
      cases s.get? d <;> simp [hcd]
    · simp [hcd]
  | contains c => exact ⟨by simp only [performHashed, ComboSet.perform, h.contains_eq], h⟩
  | remove c =>
    refine ⟨by simp only [performHashed, ComboSet.perform, h.contains_eq], fun d => ?_⟩
    change (t.erase c).get? d = (s.erase c).get? d
    rw [Std.HashSet.get?_erase, get?_erase, h d]
    exact if_congr same_eq_true_iff rfl rfl
  | get c => exact ⟨by simp only [performHashed, ComboSet.perform, h c], h⟩

theorem Matches.performAll_eq (h : Matches t s) (steps : List Step) :
    performAllHashed steps t = performAll steps s := by
  induction steps generalizing t s with
  | nil => rfl
  | cons step steps ih =>
    obtain ⟨hanswer, hnext⟩ := h.perform step
    have hrest := ih hnext
    rw [performAllHashed, performAll, performAllWith, performAllWith, hanswer, hnext.size_eq]
    exact congrArg _ hrest

/-- **A set of combos behaves as a set of key presses.** Two combos are the same if they have the
    same result and the same participants in either order; that is an equivalence, and same combos
    have the same data to be hashed. Over every run of steps that starts with the empty set, each
    answer is the one that the steps before it call for, and finding members by their hashes makes
    no difference. -/
theorem runs_from_empty :
    (∀ a b : Combo, a.same b = true ↔ a.result = b.result ∧
      (a.left = b.left ∧ a.right = b.right ∨ a.left = b.right ∧ a.right = b.left)) ∧
    (Equivalence fun a b : Combo => a.same b = true) ∧
    (∀ a b : Combo, a.same b = true → a.key = b.key ∧ hash a = hash b) ∧
    ∀ steps : List Step, Runs [] empty steps (performAll steps empty) ∧
      performAllHashed steps ∅ = performAll steps empty :=
  ⟨fun _ _ => same_eq_true_iff, equivalence_same, fun _ _ => hash_eq_of_same,
    fun steps => ⟨reflects_empty.runs steps, matches_empty.performAll_eq steps⟩⟩

end Hashing

-- the member keeps its participants in their order until its class is removed
example : performAll [.insert ⟨"A", "B", "C"⟩, .insert ⟨"B", "A", "C"⟩, .get ⟨"B", "A", "C"⟩,
    .remove ⟨"B", "A", "C"⟩, .insert ⟨"B", "A", "C"⟩, .get ⟨"A", "B", "C"⟩] empty =
    [(.flag true, 1), (.flag false, 1), (.member (some ⟨"A", "B", "C"⟩), 1), (.flag true, 0),
      (.flag true, 1), (.member (some ⟨"B", "A", "C"⟩), 1)] := by decide

end ComboSet

end KeyCombo

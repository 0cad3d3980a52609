import KeyCombo.Proofs.HomeRowFormat

set_option autoImplicit false

/-! # Home-row lists that are not read

A list fails with the fault of its leftmost bad part. Parts are judged one by one and none of them
sees the others, so a list that is put together at a comma is read like its halves one after the
other (`listed_append`). What is wrong with a part is told by what its numbers are (`PartFault`),
and of several things that are wrong with it the leftmost counts. -/

namespace KeyCombo.HomeRow

open Numeral (Spells Spoils)

/-! ## Faults of a part -/

/-- Which fault a part has. An end of a range is looked at when the start is a position, and their
    order when both are. -/
inductive PartFault : List Char → HomeRowError → Prop
  | badPosition {part : List Char} {fault : Numeral.Fault} (hdash : '-' ∉ part)
      (hpart : Spoils UInt64.size part fault) : PartFault part (.badPosition (.ofList part) fault)
  | badStart {part l r : List Char} {fault : Numeral.Fault} (hpart : IsRange part l r)
      (hstart : Spoils UInt64.size l fault) : PartFault part (.badStart (.ofList part) fault)
  | badEnd {part l r : List Char} {a : Nat} {fault : Numeral.Fault} (hpart : IsRange part l r)
      (ha : Spells UInt64.size l a) (hend : Spoils UInt64.size r fault) :
      PartFault part (.badEnd (.ofList part) fault)
  | emptyRange {part l r : List Char} {a b : Nat} (hpart : IsRange part l r)
      (ha : Spells UInt64.size l a) (hb : Spells UInt64.size r b) (hba : b < a) :
      PartFault part (.emptyRange (.ofList part))

variable {part : List Char} {e : HomeRowError}

theorem position_eq_error {error : Numeral.Fault → HomeRowError} {cs : List Char} :
    position error cs = .error e ↔ ∃ fault, Spoils UInt64.size cs fault ∧ error fault = e := by
  rw [position, except_mapError_eq_error]
  exact exists_congr fun fault => and_congr_left' (Numeral.readBelow_eq_error_iff (by decide))

theorem position_of_spoils {error : Numeral.Fault → HomeRowError} {cs : List Char}
    {fault : Numeral.Fault} (h : Spoils UInt64.size cs fault) :
    position error cs = .error (error fault) :=
  position_eq_error.2 ⟨fault, h, rfl⟩

theorem PartFault.expand_eq (h : PartFault part e) : expand part = .error e := by
  cases h with
  | badPosition hdash hpart =>
    rw [expand_of_no_dash hdash, position_of_spoils hpart]
    rfl
  | badStart hpart hstart =>
    rw [hpart.expand_eq, position_of_spoils hstart]
    rfl
  | badEnd hpart ha hend =>
    rw [hpart.expand_eq, position_eq_ok.2 ha, position_of_spoils hend]
    rfl
  | emptyRange hpart ha hb hba =>
    rw [hpart.expand_eq, position_eq_ok.2 ha, position_eq_ok.2 hb]
    exact if_neg (Nat.not_le.2 hba)

/-- A part is not expanded exactly if it has a fault, because of that. -/
theorem expand_eq_error_iff : expand part = .error e ↔ PartFault part e := by
  refine ⟨fun h => ?_, PartFault.expand_eq⟩
  by_cases hdash : '-' ∈ part
  · obtain ⟨l, r, hpart⟩ := exists_isRange hdash
    simp only [hpart.expand_eq, except_bind_eq_error, position_eq_ok, position_eq_error] at h
    rcases h with ⟨fault, hstart, rfl⟩ | ⟨a, ha, ⟨fault, hend, rfl⟩ | ⟨b, hb, h⟩⟩
    · exact .badStart hpart hstart
    · exact .badEnd hpart ha hend
    · split at h
      · cases h
      · rename_i hab
        cases h
        exact .emptyRange hpart ha hb (Nat.not_le.1 hab)
  · rw [expand_of_no_dash hdash, except_map_eq_error, position_eq_error] at h
    obtain ⟨fault, hpart, rfl⟩ := h
    exact .badPosition hdash hpart

theorem PartFault.ne_noPositions (h : PartFault part e) : e ≠ .noPositions := by
  rintro rfl
  cases h

/-! ## Faults of a list -/

/-- The first part with a fault. -/
def FirstFault (parts : List (List Char)) (e : HomeRowError) : Prop :=
  ∃ before part after, parts = before ++ part :: after ∧ (∀ p ∈ before, ∃ ps, Denotes p ps) ∧
    PartFault part e

variable {ks : List (List Char)}

theorem mapM_expand_eq_error : ks.mapM expand = .error e ↔ FirstFault ks e := by
  rw [mapM_eq_error_iff]
  simp only [expand_eq_ok_iff, expand_eq_error_iff, FirstFault]

theorem FirstFault.ne_noPositions (h : FirstFault ks e) : e ≠ .noPositions := by
  obtain ⟨before, part, after, -, -, hpart⟩ := h
  exact hpart.ne_noPositions

theorem parse_eq_error_iff {text : String} : parse text = .error e ↔
    IsSplit text.toList [] ∧ e = .noPositions ∨
      ∃ parts, IsSplit text.toList parts ∧ FirstFault parts e := by
  rw [parse_eq_bind, except_bind_eq_error, mapM_expand_eq_error]
  simp only [isSplit_iff, mapM_expand_eq_ok, exists_eq_left']
  constructor
  · rintro (h | ⟨pss, hpss, h⟩)
    · exact Or.inr h
    · split at h
      · rename_i hnil
        cases h
        exact Or.inl ⟨(flatten_eq_nil_iff hpss).1 hnil, rfl⟩
      · cases h
  · rintro (⟨hnil, rfl⟩ | h)
    · rw [hnil]
      exact Or.inr ⟨[], .nil, rfl⟩
    · exact Or.inl h

/-! ## Lists put together -/

/-- The positions in a list that need not have any. -/
def listed (text : String) : Except HomeRowError (List Nat) :=
  match parse text with
  | .error .noPositions => .ok []
  | result => result

theorem listed_eq (text : String) :
    listed text = ((parts text.toList).mapM expand).map List.flatten := by
  rw [listed, parse_eq_bind]
  cases h : (parts text.toList).mapM expand with
  | error e =>
    have hne : e ≠ .noPositions := (mapM_expand_eq_error.1 h).ne_noPositions
    cases e with
    | noPositions => exact absurd rfl hne
    | badStart | badEnd | badPosition | emptyRange => rfl
  | ok pss =>
    by_cases hnil : pss.flatten = []
    · simp [bind, Except.bind, Except.map, hnil]
    · simp [bind, Except.bind, Except.map, hnil]

theorem parts_append (cs ds : List Char) : parts (cs ++ ',' :: ds) = parts cs ++ parts ds := by
  rw [parts, List.splitOn_append_cons_self, List.map_append, List.filter_append]
  rfl

theorem listed_append (a b : String) : listed (a ++ "," ++ b) = do
    let ps ← listed a
    let qs ← listed b
    return ps ++ qs := by
  have hlist : (a ++ "," ++ b).toList = a.toList ++ ',' :: b.toList := by simp
  rw [listed_eq, listed_eq, listed_eq, hlist, parts_append, List.mapM_append]
  cases (parts a.toList).mapM expand with
  | error e => rfl
  | ok pss =>
    cases (parts b.toList).mapM expand with
    | error e => rfl
    | ok qss => exact congrArg Except.ok List.flatten_append

/-- **Home-row lists are read part by part, and the leftmost bad part is reported.** Two lists with
    a comma between them give what the first one gives followed by what the second one gives, or the
    error of the first one that has an error, a list without positions counting as an empty one. A
    text on its own is not read exactly if it has no part, or a part with a fault, and what is
    reported is the fault of the leftmost such part: a bad start before a bad end, and both before
    ends that are out of order. -/
theorem parse_reports_leftmost_fault :
    (∀ a b : String, listed (a ++ "," ++ b) = do
      let ps ← listed a
      let qs ← listed b
      return ps ++ qs) ∧
    ∀ (text : String) (e : HomeRowError), parse text = .error e ↔
      IsSplit text.toList [] ∧ e = .noPositions ∨
        ∃ parts, IsSplit text.toList parts ∧ FirstFault parts e :=
  ⟨listed_append, fun _ _ => parse_eq_error_iff⟩

/-- The range without positions stands to the left of the one with a bad start. -/
example : parse "1,,9-2,x-y" = .error (.emptyRange "9-2") :=
  rfl

end KeyCombo.HomeRow

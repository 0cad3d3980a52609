import KeyCombo.Proofs.HomeRowFormat

set_option autoImplicit false

/-! # Writing home-row lists

A list of positions and ranges can be written in many ways: a number with a plus sign or with zeros
in front, blanks around numbers, and parts that are blank. None of that is read back, because every
way of writing an item is trimmed to a part that stands for the positions of the item
(`Item.Writes.denotes`), and a blank part to nothing. -/

namespace KeyCombo.HomeRow

open Numeral (Spells)
open Text (Padded Trims isBlank)

/-- What is listed between two commas: a position on its own, or a range with both ends included. -/
inductive Item where
  | position (n : Nat) (hn : n < UInt64.size)
  | range (first last : Nat) (hle : first ≤ last) (hlast : last < UInt64.size)

namespace Item

/-- The positions that an item lists. -/
def positions : Item → List Nat
  | position n _ => [n]
  | range first last _ _ => List.Ico first (last + 1)

/-- Whether a text writes an item. There may be blanks around each number. -/
inductive Writes : Item → List Char → Prop
  | position {n : Nat} {hn : n < UInt64.size} {cs numeral : List Char}
      (hnumeral : Spells UInt64.size numeral n) (hcs : Padded cs numeral) :
      Writes (.position n hn) cs
  | range {first last : Nat} {hle : first ≤ last} {hlast : last < UInt64.size}
      {left right l r : List Char} (hl : Spells UInt64.size l first) (hleft : Padded left l)
      (hr : Spells UInt64.size r last) (hright : Padded right r) :
      Writes (.range first last hle hlast) (left ++ '-' :: right)

end Item

/-- Whether the texts between commas write the items in order. There may be blank texts among
    them. -/
inductive Fills : List Item → List (List Char) → Prop
  | nil : Fills [] []
  | blank {items : List Item} {chunk : List Char} {chunks : List (List Char)}
      (hchunk : ∀ c ∈ chunk, isBlank c = true) (h : Fills items chunks) :
      Fills items (chunk :: chunks)
  | item {item : Item} {items : List Item} {chunk : List Char} {chunks : List (List Char)}
      (hchunk : item.Writes chunk) (h : Fills items chunks) :
      Fills (item :: items) (chunk :: chunks)

/-- Whether a text writes a list of items. -/
def Writes (items : List Item) (cs : List Char) : Prop :=
  ∃ chunks, Fills items chunks ∧ [','].intercalate chunks = cs

/-! ## Characters of numbers -/

variable {n : Nat} {cs numeral : List Char}

/-- No character of a numeral is blank. -/
theorem isBlank_of_mem_numeral (h : Spells UInt64.size numeral n) :
    ∀ c ∈ numeral, isBlank c = false := by
  intro c hc
  rcases h.plus_or_digit c hc with rfl | hdigit
  · decide
  · obtain ⟨d, hd, rfl⟩ := Numeral.exists_digitChar hdigit
    have hdigits : ∀ d < 10, isBlank (Nat.digitChar d) = false := by decide
    exact hdigits d hd

theorem comma_not_mem_of_padded (h : Spells UInt64.size numeral n) (hcs : Padded cs numeral) :
    ',' ∉ cs :=
  hcs.not_mem (by decide) fun hcomma => absurd (h.plus_or_digit ',' hcomma) (by decide)

theorem trims_numeral (h : Spells UInt64.size numeral n) (hcs : Padded cs numeral) :
    Trims cs numeral :=
  ⟨hcs, fun c hc => isBlank_of_mem_numeral h c (List.mem_of_head? hc),
    fun c hc => isBlank_of_mem_numeral h c (List.mem_of_getLast? hc)⟩

/-! ## Items -/

namespace Item

variable {item : Item} {chunk : List Char}

theorem exists_writes (item : Item) : ∃ chunk, item.Writes chunk := by
  cases item with
  | position n hn => exact ⟨_, .position (Numeral.spells_toDigits hn) (.refl _)⟩
  | range first last hle hlast =>
    exact ⟨_, .range (Numeral.spells_toDigits (Nat.lt_of_le_of_lt hle hlast)) (.refl _)
      (Numeral.spells_toDigits hlast) (.refl _)⟩

theorem Writes.comma_not_mem (h : item.Writes chunk) : ',' ∉ chunk := by
  cases h with
  | position hnumeral hcs => exact comma_not_mem_of_padded hnumeral hcs
  | range hl hleft hr hright =>
    simp [comma_not_mem_of_padded hl hleft, comma_not_mem_of_padded hr hright]

/-- A text of an item is trimmed to a part that stands for the positions of the item. -/
theorem Writes.denotes (h : item.Writes chunk) :
    ∃ part, Trims chunk part ∧ Denotes part item.positions := by
  cases h with
  | position hnumeral hcs => exact ⟨_, trims_numeral hnumeral hcs, .position hnumeral⟩
  | @range _ _ hle _ left right l r hl hleft hr hright =>
    have hdash : '-' ∉ left := hleft.not_mem (by decide) (dash_not_mem_of_spells hl)
    obtain ⟨beforeLeft, afterLeft, rfl, hbeforeLeft, hafterLeft⟩ := hleft
    obtain ⟨beforeRight, afterRight, rfl, hbeforeRight, hafterRight⟩ := hright
    have hleft : Trims (l ++ afterLeft) l :=
      trims_numeral hl ⟨[], afterLeft, by simp, by simp, hafterLeft⟩
    have hright : Trims (beforeRight ++ r) r :=
      trims_numeral hr ⟨beforeRight, [], by simp, hbeforeRight, by simp⟩
    -- the outer blanks go when the part is trimmed, those at the dash when its ends are
    refine ⟨(l ++ afterLeft) ++ '-' :: (beforeRight ++ r), ⟨?_, ?_, ?_⟩, ?_⟩
    · exact ⟨beforeLeft, afterRight, by simp, hbeforeLeft, hafterRight⟩
    · rw [List.append_assoc, List.head?_append_of_ne_nil _ hl.ne_nil]
      exact hleft.first
    · rw [← List.cons_append, ← List.append_assoc, List.getLast?_append_of_ne_nil _ hr.ne_nil]
      exact hright.last
    · refine .range (.intro ?_ hleft hright) hl hr hle
      exact fun hmem => hdash (by simp_all)

end Item

/-! ## Lists -/

variable {items : List Item} {chunks : List (List Char)}

theorem exists_fills (items : List Item) : ∃ chunks, Fills items chunks := by
  induction items with
  | nil => exact ⟨[], .nil⟩
  | cons item items ih =>
    obtain ⟨chunks, hchunks⟩ := ih
    obtain ⟨chunk, hchunk⟩ := item.exists_writes
    exact ⟨chunk :: chunks, .item hchunk hchunks⟩

theorem Fills.comma_not_mem (h : Fills items chunks) : ∀ chunk ∈ chunks, ',' ∉ chunk := by
  induction h with
  | nil => simp
  | blank hchunk _ ih =>
    refine List.forall_mem_cons.2 ⟨fun hcomma => ?_, ih⟩
    exact absurd (hchunk ',' hcomma) (by decide)
  | item hchunk _ ih => exact List.forall_mem_cons.2 ⟨hchunk.comma_not_mem, ih⟩

theorem Fills.chunks_ne_nil (h : Fills items chunks) (hitems : items ≠ []) : chunks ≠ [] := by
  cases h with
  | nil => exact absurd rfl hitems
  | blank | item => exact List.cons_ne_nil _ _

/-- The parts that are not blank stand for the positions of the items in order. -/
theorem Fills.denotes (h : Fills items chunks) : ∃ cores, List.Forall₂ Trims chunks cores ∧
    List.Forall₂ (fun part item => Denotes part (Item.positions item)) (cores.filter (· ≠ []))
      items := by
  induction h with
  | nil => exact ⟨[], .nil, .nil⟩
  | blank hchunk _ ih =>
    obtain ⟨cores, hcores, hitems⟩ := ih
    exact ⟨[] :: cores, .cons (Text.trims_nil hchunk) hcores, hitems⟩
  | item hchunk _ ih =>
    obtain ⟨cores, hcores, hitems⟩ := ih
    obtain ⟨part, hpart, hdenotes⟩ := hchunk.denotes
    refine ⟨part :: cores, .cons hpart hcores, ?_⟩
    rw [List.filter_cons_of_pos (by simpa using hdenotes.part_ne_nil)]
    exact .cons hdenotes hitems

/-- Every way of writing a list of items is read as their positions. -/
theorem Writes.parse_eq {text : String} (h : Writes items text.toList) (hitems : items ≠ []) :
    parse text = .ok (items.flatMap Item.positions) := by
  obtain ⟨chunks, hfills, hchunks⟩ := h
  obtain ⟨cores, hcores, hdenotes⟩ := hfills.denotes
  refine parse_eq_ok_iff.2 ⟨cores.filter (· ≠ []), items.map Item.positions,
    ⟨chunks, cores, hfills.chunks_ne_nil hitems, hfills.comma_not_mem, hchunks, hcores, rfl⟩,
    fun hnil => ?_, List.forall₂_map_right_iff.2 hdenotes, List.flatMap_def⟩
  rw [hnil] at hdenotes
  cases hdenotes
  exact hitems rfl

/-- **A home-row list is read exactly if it has the format, and then to what it lists.** A text is
    read exactly if, split at its commas and trimmed, it has a part that is not blank, and all such
    parts are numbers below `2 ^ 64` or ranges of them whose ends are in order; what is read are the
    positions of the parts in order. In particular, every way of writing some positions and ranges,
    with any blanks around numbers and any further blank parts, is read as those. -/
theorem parse_accepts_format :
    (∀ (text : String) (ps : List Nat), parse text = .ok ps ↔
      ∃ parts pss, IsSplit text.toList parts ∧ parts ≠ [] ∧ List.Forall₂ Denotes parts pss ∧
        ps = pss.flatten) ∧
    ∀ items : List Item, items ≠ [] →
      (∃ text : String, Writes items text.toList) ∧
      ∀ text : String, Writes items text.toList →
        parse text = .ok (items.flatMap Item.positions) := by
  refine ⟨fun text ps => parse_eq_ok_iff, fun items hitems => ⟨?_, fun text h => h.parse_eq hitems⟩⟩
  obtain ⟨chunks, hchunks⟩ := exists_fills items
  exact ⟨.ofList ([','].intercalate chunks), chunks, hchunks, String.toList_ofList.symm⟩

theorem parse_accepts_format_spaced :
    [Item.range 15 18 (by decide) (by decide), Item.position 53 (by decide)] ≠ [] ∧
    Writes [.range 15 18 (by decide) (by decide), .position 53 (by decide)]
      " +015 -\u00a018,, 53 ,\u2003".toList ∧
    parse " +015 -\u00a018,, 53 ,\u2003" = .ok [15, 16, 17, 18, 53] := by
  have hfirst : Spells UInt64.size "+015".toList 15 :=
    ⟨"015".toList, .plus (by decide), List.all_eq_true.1 (by decide), by decide, by decide⟩
  have hlast : Spells UInt64.size "18".toList 18 :=
    ⟨"18".toList, .plain (by decide) (by decide), List.all_eq_true.1 (by decide), by decide,
      by decide⟩
  have hlone : Spells UInt64.size "53".toList 53 :=
    ⟨"53".toList, .plain (by decide) (by decide), List.all_eq_true.1 (by decide), by decide,
      by decide⟩
  have hblank : ∀ c ∈ [' '], isBlank c = true := List.all_eq_true.1 (by decide)
  have hnoBreak : ∀ c ∈ ['\u00a0'], isBlank c = true := List.all_eq_true.1 (by decide)
  have hemSpace : ∀ c ∈ ['\u2003'], isBlank c = true := List.all_eq_true.1 (by decide)
  have hleft : Padded " +015 ".toList "+015".toList :=
    ⟨[' '], [' '], by decide, hblank, hblank⟩
  have hright : Padded "\u00a018".toList "18".toList :=
    ⟨['\u00a0'], [], by decide, hnoBreak, by simp⟩
  have hrange : Item.Writes (.range 15 18 (by decide) (by decide)) " +015 -\u00a018".toList :=
    .range hfirst hleft hlast hright
  have hposition : Item.Writes (.position 53 (by decide)) " 53 ".toList :=
    .position hlone ⟨[' '], [' '], by decide, hblank, hblank⟩
  have hwrites : Writes [.range 15 18 (by decide) (by decide), .position 53 (by decide)]
      " +015 -\u00a018,, 53 ,\u2003".toList :=
    ⟨[" +015 -\u00a018".toList, [], " 53 ".toList, ['\u2003']],
      .item hrange (.blank (by simp) (.item hposition (.blank hemSpace .nil))), by decide⟩
  exact ⟨List.cons_ne_nil _ _, hwrites,
    (parse_accepts_format.2 _ (List.cons_ne_nil _ _)).2 _ hwrites⟩

end KeyCombo.HomeRow

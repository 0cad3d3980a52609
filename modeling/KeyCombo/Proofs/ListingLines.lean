import KeyCombo.Keymap
import KeyCombo.Proofs.HomeRowPositions
import KeyCombo.Proofs.SourceTerms
import Mathlib

set_option autoImplicit false

/-! # The lines of a listing

Both blocks of a listing have one line for each combo, and line `n` of one belongs to line `n` of
the other. Nothing in a line may then look like the end of it: key codes that come from a source
are names, and a name has neither line breaks nor commas in it. The same makes the entries of a line
readable again, so that the two blocks tell which combos they were written from. -/

namespace KeyCombo

/-! ## Lines -/

/-- The lines of a block. An empty block has none. -/
def blockLines (block : String) : List String :=
  if block = "" then [] else (block.toList.splitOn '\n').map String.ofList

/-- Whether a line declares the array of a name with the given entries. -/
def Declares (line name : String) (entries : List String) : Prop :=
  line = "const uint16_t PROGMEM " ++ name ++ "[] = \x7b" ++ ", ".intercalate entries ++ "\x7d;"

/-- Whether a line registers the array of a name with the given result. -/
def Registers (line name result : String) : Prop :=
  line = "COMBO(" ++ name ++ ", " ++ result ++ "),"

theorem blockLines_intercalate {lines : List String}
    (h : ∀ line ∈ lines, line ≠ "" ∧ '\n' ∉ line.toList) :
    blockLines ("\n".intercalate lines) = lines := by
  by_cases hnil : lines = []
  · subst hnil
    rfl
  have hchars : ("\n".intercalate lines).toList.splitOn '\n' = lines.map String.toList := by
    rw [String.toList_intercalate]
    refine List.splitOn_intercalate '\n' ?_ (by simpa using hnil)
    simp only [List.forall_mem_map]
    exact fun line hline => (h line hline).2
  have hne : "\n".intercalate lines ≠ "" := by
    intro hempty
    rw [hempty] at hchars
    have hsplit : [[]] = lines.map String.toList := hchars
    obtain ⟨line, rest, rfl, hline, -⟩ := List.map_eq_cons_iff.1 hsplit.symm
    exact (h line List.mem_cons_self).1 (String.toList_eq_nil_iff.1 hline)
  rw [blockLines, if_neg hne, hchars, List.map_map]
  simp

/-! ## Names of arrays -/

namespace Config

variable {config : Config}

theorem arrayName_injective : Function.Injective config.arrayName := by
  intro m n h
  rw [arrayName, arrayName, String.append_right_inj] at h
  have hdigits := congrArg (fun s => Nat.ofDigitChars 10 s.toList 0) h
  simpa [Nat.toString_eq_ofList_toDigits] using hdigits

theorem newline_not_mem_arrayName (hbreak : '\n' ∉ config.comboPrefix.toList) (n : Nat) :
    '\n' ∉ (config.arrayName n).toList := by
  rw [arrayName, String.toList_append, List.mem_append, not_or]
  refine ⟨hbreak, fun h => ?_⟩
  rw [Nat.toString_eq_ofList_toDigits, String.toList_ofList] at h
  exact absurd (List.all_eq_true.1 (Numeral.toDigits_all_isDigit n) _ h) (by decide)

end Config

/-! ## Combos that can be read back -/

/-- Whether a text has neither commas nor line breaks in it. -/
def IsPlain (s : String) : Prop := ',' ∉ s.toList ∧ '\n' ∉ s.toList

instance (s : String) : Decidable (IsPlain s) := inferInstanceAs (Decidable (_ ∧ _))

/-- Whether the participants and the result of a combo are plain. -/
structure Combo.Legible (c : Combo) : Prop where
  left : IsPlain c.left
  right : IsPlain c.right
  result : IsPlain c.result

/-- A run of letters and underscores is plain. -/
theorem isPlain_of_isNameChar {s : String} (h : ∀ c ∈ s.toList, Text.isNameChar c = true) :
    IsPlain s :=
  ⟨fun hc => absurd (h _ hc) (by decide), fun hc => absurd (h _ hc) (by decide)⟩

/-- Two texts that go on with a comma are the same up to their first one, and behind it. -/
theorem append_comma_inj {as bs xs ys : List Char} (has : ',' ∉ as) (hbs : ',' ∉ bs)
    (h : as ++ ',' :: xs = bs ++ ',' :: ys) : as = bs ∧ xs = ys := by
  rcases List.append_eq_append_iff.1 h with ⟨cs, rfl, hcs⟩ | ⟨cs, rfl, hcs⟩
  · cases cs with
    | nil => simpa using hcs
    | cons c cs =>
      obtain ⟨rfl, -⟩ := List.cons.inj hcs
      simp at hbs
  · cases cs with
    | nil => simpa [eq_comm] using hcs
    | cons c cs =>
      obtain ⟨rfl, -⟩ := List.cons.inj hcs
      simp at has

namespace Config

variable {config : Config} {n : Nat} {c d : Combo}

theorem toList_declaration (config : Config) (n : Nat) (c : Combo) :
    (config.declaration n c).toList = "const uint16_t PROGMEM ".toList ++
      ((config.arrayName n).toList ++ ("[] = \x7b".toList ++ (c.left.toList ++ (", ".toList ++
        (c.right.toList ++ ", COMBO_END\x7d;".toList))))) := by
  unfold declaration
  simp only [String.toList_append, List.append_assoc]

theorem toList_registration (config : Config) (n : Nat) (c : Combo) :
    (config.registration n c).toList = "COMBO(".toList ++
      ((config.arrayName n).toList ++ (", ".toList ++ (c.result.toList ++ "),".toList))) := by
  unfold registration
  simp only [String.toList_append, List.append_assoc]

theorem declaration_ne_empty : config.declaration n c ≠ "" := by
  intro h
  have hchars := congrArg String.toList h
  simp [toList_declaration] at hchars

theorem registration_ne_empty : config.registration n c ≠ "" := by
  intro h
  have hchars := congrArg String.toList h
  simp [toList_registration] at hchars

theorem newline_not_mem_declaration (hbreak : '\n' ∉ config.comboPrefix.toList)
    (hc : c.Legible) : '\n' ∉ (config.declaration n c).toList := by
  simp [toList_declaration, newline_not_mem_arrayName hbreak n, hc.left.2, hc.right.2]

theorem newline_not_mem_registration (hbreak : '\n' ∉ config.comboPrefix.toList)
    (hc : c.Legible) : '\n' ∉ (config.registration n c).toList := by
  simp [toList_registration, newline_not_mem_arrayName hbreak n, hc.result.2]

/-- The two lines of a combo tell which one it is. -/
theorem eq_of_lines (hc : c.Legible) (hd : d.Legible)
    (hdeclaration : config.declaration n c = config.declaration n d)
    (hregistration : config.registration n c = config.registration n d) : c = d := by
  have hkeys := congrArg String.toList hdeclaration
  have hresult := congrArg String.toList hregistration
  simp only [toList_declaration, toList_registration, List.append_cancel_left_eq] at hkeys hresult
  obtain ⟨hleft, hrest⟩ := append_comma_inj hc.left.1 hd.left.1 hkeys
  have hright := List.append_cancel_right (List.append_cancel_left hrest)
  have hresult := List.append_cancel_right hresult
  obtain ⟨left, right, result⟩ := c
  rw [String.toList_inj] at hleft hright hresult
  subst hleft hright hresult
  rfl

/-! ## Lines of a listing -/

/-- One line for each combo makes a block with just these lines. -/
theorem blockLines_mapIdx {line : Nat → Combo → String} {cs : List Combo}
    (h : ∀ n, ∀ c ∈ cs, line n c ≠ "" ∧ '\n' ∉ (line n c).toList) :
    blockLines ("\n".intercalate (cs.mapIdx line)) = cs.mapIdx line := by
  refine blockLines_intercalate fun text htext => ?_
  obtain ⟨n, hn, rfl⟩ := List.mem_mapIdx.1 htext
  exact h n _ (List.getElem_mem hn)

theorem blockLines_declarations (hbreak : '\n' ∉ config.comboPrefix.toList) {cs : List Combo}
    (hcs : ∀ c ∈ cs, c.Legible) :
    blockLines (config.listing cs).declarations = cs.mapIdx config.declaration :=
  blockLines_mapIdx fun _ c hc =>
    ⟨declaration_ne_empty, newline_not_mem_declaration hbreak (hcs c hc)⟩

theorem blockLines_registrations (hbreak : '\n' ∉ config.comboPrefix.toList) {cs : List Combo}
    (hcs : ∀ c ∈ cs, c.Legible) :
    blockLines (config.listing cs).registrations = cs.mapIdx config.registration :=
  blockLines_mapIdx fun _ c hc =>
    ⟨registration_ne_empty, newline_not_mem_registration hbreak (hcs c hc)⟩

/-- Legible combos can be told from their listing. -/
theorem listing_inj (hbreak : '\n' ∉ config.comboPrefix.toList) {cs ds : List Combo}
    (hcs : ∀ c ∈ cs, c.Legible) (hds : ∀ d ∈ ds, d.Legible)
    (h : config.listing cs = config.listing ds) : cs = ds := by
  have hdeclarations : cs.mapIdx config.declaration = ds.mapIdx config.declaration := by
    rw [← blockLines_declarations hbreak hcs, h, blockLines_declarations hbreak hds]
  have hregistrations : cs.mapIdx config.registration = ds.mapIdx config.registration := by
    rw [← blockLines_registrations hbreak hcs, h, blockLines_registrations hbreak hds]
  have hlength : cs.length = ds.length := by
    simpa using congrArg List.length hdeclarations
  refine List.ext_getElem hlength fun n hn hn' => ?_
  have hdeclaration : config.declaration n cs[n] = config.declaration n ds[n] := by
    simpa [hn, hn'] using congrArg (fun lines => lines[n]?) hdeclarations
  have hregistration : config.registration n cs[n] = config.registration n ds[n] := by
    simpa [hn, hn'] using congrArg (fun lines => lines[n]?) hregistrations
  exact eq_of_lines (hcs _ (List.getElem_mem hn)) (hds _ (List.getElem_mem hn')) hdeclaration
    hregistration

end Config

/-! ## Combos of a source -/

namespace Config

variable {config : Config}

/-- The key code of an expression is one of its names. -/
theorem isPlain_of_keyCode {t : Term} {key : String} (ht : IsExpression t)
    (h : config.keyCode t = .ok key) : IsPlain key := by
  cases ht.within (keyCode_eq_ok_iff.1 h).within with
  | name hkey => exact isPlain_of_isNameChar hkey.2.1

theorem Finds.isCombo {root : Term} {c : Combo} (h : config.Finds root c) :
    c.left ≠ c.right ∧ c.result ≠ config.transparent := by
  cases h with
  | intro _ _ _ _ hkeeps => simpa [keeps] using hkeeps

theorem legible_of_finds {root : Term} {c : Combo} (hroot : IsExpression root)
    (h : config.Finds root c) : c.Legible := by
  obtain ⟨⟨_, rfl, -⟩, -, -, hc, -⟩ := h
  obtain ⟨hfirst, hleft, hsecond, hright, -, htarget, hkeys, hthird, hresult⟩ := hc
  obtain ⟨_, rfl, -⟩ := layerKeys_eq_ok.1 hkeys
  have hbase := (hroot.args _ List.mem_cons_self).args
  have hkeys := (hroot.args _ (List.mem_of_getElem? htarget)).args
  exact ⟨isPlain_of_keyCode (hbase _ (List.mem_of_getElem? hfirst)) hleft,
    isPlain_of_keyCode (hbase _ (List.mem_of_getElem? hsecond)) hright,
    isPlain_of_keyCode (hkeys _ (List.mem_of_getElem? hthird)) hresult⟩

theorem generate_eq_ok {source : String} {l : Listing} : config.generate source = .ok l ↔
    ∃ root cs, Term.ofSource source = .ok root ∧ config.extract root = .ok cs ∧
      config.listing cs = l := by
  simp only [generate, except_bind_eq_ok, except_mapError_eq_ok, pure, Except.pure,
    Except.ok.injEq]
  constructor
  · rintro ⟨root, hroot, cs, hcs, hl⟩
    exact ⟨root, cs, hroot, hcs, hl⟩
  · rintro ⟨root, cs, hroot, hcs, hl⟩
    exact ⟨root, hroot, cs, hcs, hl⟩

/-! ## Aligned blocks -/

/-- Whether the two blocks of a listing have one line for each combo, and line `n` of both of them
    is about combo `n`, under a name that no other line has. -/
structure Aligned (config : Config) (cs : List Combo) (l : Listing) : Prop where
  declarations_length : (blockLines l.declarations).length = cs.length
  registrations_length : (blockLines l.registrations).length = cs.length
  empty : cs = [] → l = ⟨"", ""⟩
  declares : ∀ (n : Nat) (c : Combo), cs[n]? = some c →
    ∃ line, (blockLines l.declarations)[n]? = some line ∧
      Declares line (config.comboPrefix ++ toString n) [c.left, c.right, "COMBO_END"]
  registers : ∀ (n : Nat) (c : Combo), cs[n]? = some c →
    ∃ line, (blockLines l.registrations)[n]? = some line ∧
      Registers line (config.comboPrefix ++ toString n) c.result
  names : ((List.range cs.length).map fun n => config.comboPrefix ++ toString n).Nodup

theorem aligned_listing (hbreak : '\n' ∉ config.comboPrefix.toList) {cs : List Combo}
    (hcs : ∀ c ∈ cs, c.Legible) : config.Aligned cs (config.listing cs) := by
  have hdeclarations := blockLines_declarations hbreak hcs
  have hregistrations := blockLines_registrations hbreak hcs
  refine ⟨?_, ?_, ?_, ?_, ?_, ?_⟩
  · rw [hdeclarations, List.length_mapIdx]
  · rw [hregistrations, List.length_mapIdx]
  · rintro rfl
    rfl
  · intro n c hc
    refine ⟨config.declaration n c, ?_, ?_⟩
    · rw [hdeclarations, List.getElem?_mapIdx, hc]
      rfl
    · unfold Declares declaration arrayName
      simp [String.append_assoc]
  · intro n c hc
    refine ⟨config.registration n c, ?_, rfl⟩
    rw [hregistrations, List.getElem?_mapIdx, hc]
    rfl
  · exact List.Nodup.map arrayName_injective List.nodup_range

/-- **The two blocks of a listing are aligned and lose nothing.** Whatever combos a source has, line
    `n` of the declarations defines an array of the participants of combo `n`, which are two
    different keys, and line `n` of the registrations gives that array a result, which is not the
    transparent one. Legible combos, such as all those with names for keys, can be told from their
    listing. -/
theorem generate_aligned (config : Config) (hbreak : '\n' ∉ config.comboPrefix.toList) :
    (∀ source l, config.generate source = .ok l →
      ∃ root cs, Term.ofSource source = .ok root ∧ config.extract root = .ok cs ∧
        config.Aligned cs l ∧ ∀ c ∈ cs, c.left ≠ c.right ∧ c.result ≠ config.transparent) ∧
    ∀ cs ds : List Combo, (∀ c ∈ cs, c.Legible) → (∀ d ∈ ds, d.Legible) →
      config.listing cs = config.listing ds → cs = ds := by
  refine ⟨fun source l h => ?_, fun cs ds => listing_inj hbreak⟩
  obtain ⟨root, cs, hroot, hcs, rfl⟩ := generate_eq_ok.1 h
  have hlegible : ∀ c ∈ cs, c.Legible := fun c hc =>
    legible_of_finds (isExpression_of_ofSource hroot) (finds_of_mem hcs hc)
  exact ⟨root, cs, hroot, hcs, aligned_listing hbreak hlegible,
    fun c hc => (finds_of_mem hcs hc).isCombo⟩

theorem generate_aligned_twoKeys :
    (generate { Config.default with homeRow := [0, 1] } "K(LAYOUT(A, B))" =
        .ok (Config.default.listing [⟨"A", "B", "B"⟩, ⟨"B", "A", "A"⟩]) ∧
      ∃ root cs, Term.ofSource "K(LAYOUT(A, B))" = .ok root ∧
        extract { Config.default with homeRow := [0, 1] } root = .ok cs ∧
        Aligned { Config.default with homeRow := [0, 1] } cs
          (Config.default.listing [⟨"A", "B", "B"⟩, ⟨"B", "A", "A"⟩]) ∧
        ∀ c ∈ cs, c.left ≠ c.right ∧ c.result ≠ "KC_TRANSPARENT") ∧
    Config.default.listing [⟨"A", "B", "B"⟩] ≠ Config.default.listing [⟨"B", "A", "B"⟩] := by
  have hroot : Term.ofSource "K(LAYOUT(A, B))" =
      .ok (.call "K" [.call "LAYOUT" [.name "A", .name "B"]]) := by cbv
  have hl : generate { Config.default with homeRow := [0, 1] } "K(LAYOUT(A, B))" =
      .ok (Config.default.listing [⟨"A", "B", "B"⟩, ⟨"B", "A", "A"⟩]) :=
    generate_eq_ok.2 ⟨_, _, hroot, by decide, rfl⟩
  refine ⟨⟨hl, (generate_aligned _ (by decide)).1 _ _ hl⟩, fun h => ?_⟩
  have hab : ∀ c ∈ [(⟨"A", "B", "B"⟩ : Combo)], c.Legible :=
    List.forall_mem_singleton.2 ⟨by decide, by decide, by decide⟩
  have hba : ∀ c ∈ [(⟨"B", "A", "B"⟩ : Combo)], c.Legible :=
    List.forall_mem_singleton.2 ⟨by decide, by decide, by decide⟩
  exact absurd ((generate_aligned Config.default (by decide)).2 _ _ hab hba h) (by decide)

end Config

end KeyCombo

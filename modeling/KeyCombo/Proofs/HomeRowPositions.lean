import KeyCombo.Proofs.ExtractionFaults
import Mathlib.Data.List.Perm.Basic

set_option autoImplicit false

/-! # The role of the home row

The home row says which pairs of positions are looked up, and in which order. What a pair yields
does not depend on it, so a home row with fewer positions asks for less of a keymap and finds fewer
combos, and one with the same positions in another order finds the same combos in another order.

Which combo stands for its class hangs on the order of the pairs, so two runs are compared by what
they find and not by their steps: `Complete` and `Finds` say when extraction succeeds and which
classes it returns, and neither mentions an order. -/

namespace KeyCombo

/-! ## Lists with the same combos -/

namespace Combo

/-- Whether two lists have the same combos in any order, each with its participants in either
    order. -/
def SameCombos (cs ds : List Combo) : Prop := ∃ es, cs.Perm es ∧ List.Forall₂ SameClass es ds

theorem nodup_keys {cs : List Combo} (h : cs.Pairwise fun a b => ¬SameClass a b) :
    (cs.map key).Nodup := by
  rw [List.Nodup, List.pairwise_map]
  exact h.imp fun hne hkey => hne (sameClass_iff_key_eq.2 hkey)

/-- Lists without two combos of one class have the same combos if they have the same classes. -/
theorem sameCombos_of_classes {cs ds : List Combo} (hcs : cs.Pairwise fun a b => ¬SameClass a b)
    (hds : ds.Pairwise fun a b => ¬SameClass a b) (hsub : ∀ c ∈ cs, ∃ d ∈ ds, SameClass d c)
    (hsup : ∀ d ∈ ds, ∃ c ∈ cs, SameClass c d) : SameCombos cs ds := by
  have hkeys : (ds.map key).Perm (cs.map key) := by
    refine (List.perm_ext_iff_of_nodup (nodup_keys hds) (nodup_keys hcs)).2 fun k => ?_
    simp only [List.mem_map]
    constructor
    · rintro ⟨d, hd, rfl⟩
      obtain ⟨c, hc, hcd⟩ := hsup d hd
      exact ⟨c, hc, sameClass_iff_key_eq.1 hcd⟩
    · rintro ⟨c, hc, rfl⟩
      obtain ⟨d, hd, hdc⟩ := hsub c hc
      exact ⟨d, hd, sameClass_iff_key_eq.1 hdc⟩
  obtain ⟨es, hes, hperm⟩ : Relation.Comp (· = List.map key ·) List.Perm (ds.map key) cs := by
    rwa [List.eq_map_comp_perm]
  have hsame : List.Forall₂ (· = ·) (es.map key) (ds.map key) := by
    rw [List.forall₂_eq_eq_eq, hes]
  rw [List.forall₂_map_left_iff, List.forall₂_map_right_iff] at hsame
  exact ⟨es, hperm.symm, hsame.imp fun _ _ => sameClass_iff_key_eq.2⟩

end Combo

namespace Config

/-! ## Configurations that look entries up alike -/

/-- Whether two configurations agree in how they read the entries of layers. They may differ in
    which positions they take, in which combos they drop and in how they name arrays. -/
structure LooksAlike (a b : Config) : Prop where
  toggleMarker : a.toggleMarker = b.toggleMarker
  layerOffset : a.layerOffset = b.layerOffset
  layoutPrefix : a.layoutPrefix = b.layoutPrefix

namespace LooksAlike

variable {a b : Config} {layers base : List Term} {i j : Nat}

theorem symm (h : LooksAlike a b) : LooksAlike b a :=
  ⟨h.toggleMarker.symm, h.layerOffset.symm, h.layoutPrefix.symm⟩

theorem keyCode_eq (h : LooksAlike a b) (t : Term) : a.keyCode t = b.keyCode t :=
  keyCode_congr h.toggleMarker t

theorem layerKeys_eq (h : LooksAlike a b) (t : Term) : a.layerKeys t = b.layerKeys t := by
  unfold layerKeys isLayout
  rw [h.layoutPrefix]

theorem layerTarget_eq (h : LooksAlike a b) (t : Term) : a.layerTarget t = b.layerTarget t := by
  cases t <;> simp only [layerTarget, layerNumber, h.toggleMarker, h.layerOffset]

theorem comboAt_eq (h : LooksAlike a b) (layers base : List Term) (i j : Nat) :
    a.comboAt layers base i j = b.comboAt layers base i j := by
  simp only [comboAt, h.keyCode_eq, h.layerKeys_eq, h.layerTarget_eq]

theorem yields (h : LooksAlike a b) {c : Combo} (hc : a.Yields layers base i j c) :
    b.Yields layers base i j c := by
  rw [← comboAt_eq_ok] at hc ⊢
  rwa [← h.comboAt_eq]

theorem completeAt (h : LooksAlike a b) (hc : a.CompleteAt layers base i j) :
    b.CompleteAt layers base i j := by
  rw [← comboAt_isOk_iff] at hc ⊢
  simpa only [← h.comboAt_eq] using hc

theorem isLayer (h : LooksAlike a b) {t : Term} {keys : List Term} (ht : a.IsLayer t keys) :
    b.IsLayer t keys := by
  rw [← layerKeys_eq_ok_iff] at ht ⊢
  rwa [← h.layerKeys_eq]

end LooksAlike

/-! ## Which classes are found -/

/-- Whether two home-row positions yield a combo that is kept. -/
inductive Finds (config : Config) : Term → Combo → Prop
  | intro {callee : String} {baseLayer : Term} {layers base : List Term} {i j : Nat} {c : Combo}
      (hbase : config.IsLayer baseLayer base) (hi : i ∈ config.homeRow) (hj : j ∈ config.homeRow)
      (hc : config.Yields (baseLayer :: layers) base i j c) (hkeeps : config.keeps c = true) :
      Finds config (.call callee (baseLayer :: layers)) c

variable {config : Config} {root : Term} {cs : List Combo} {c : Combo}

/-- Which combos the pairs yield, without the order in which they are looked up. -/
theorem mem_found {layers base : List Term} {found : List Combo}
    (h : List.Forall₂ (fun p c => config.Yields layers base p.1 p.2 c) config.pairs found) :
    c ∈ found ↔ ∃ i ∈ config.homeRow, ∃ j ∈ config.homeRow, config.Yields layers base i j c := by
  simp only [← comboAt_eq_ok] at h ⊢
  rw [mem_iff_of_mapM (mapM_eq_ok_iff.2 h)]
  constructor
  · rintro ⟨p, hp, hc⟩
    obtain ⟨hi, hj⟩ := mem_pairs.1 hp
    exact ⟨p.1, hi, p.2, hj, hc⟩
  · rintro ⟨i, hi, j, hj, hc⟩
    exact ⟨(i, j), mem_pairs.2 ⟨hi, hj⟩, hc⟩

theorem finds_of_mem (h : config.extract root = .ok cs) (hc : c ∈ cs) : config.Finds root c := by
  obtain ⟨callee, baseLayer, layers, base, found, rfl, hbase, hfound, rfl⟩ := extract_eq_ok.1 h
  obtain ⟨hmem, hkeeps⟩ := List.mem_filter.1 (Combo.mem_of_mem_firsts hc)
  obtain ⟨i, hi, j, hj, hyields⟩ := (mem_found hfound).1 hmem
  exact .intro (layerKeys_eq_ok_iff.1 hbase) hi hj hyields hkeeps

theorem exists_mem_of_finds (h : config.extract root = .ok cs) (hc : config.Finds root c) :
    ∃ d ∈ cs, d.SameClass c := by
  obtain ⟨callee, baseLayer, layers, base, found, rfl, hbase, hfound, rfl⟩ := extract_eq_ok.1 h
  cases hc with
  | intro hbase' hi hj hyields hkeeps =>
    rw [← layerKeys_eq_ok_iff, hbase] at hbase'
    cases hbase'
    have hmem := (mem_found hfound).2 ⟨_, hi, _, hj, hyields⟩
    exact Combo.exists_mem_firsts (List.mem_filter.2 ⟨hmem, hkeeps⟩)

theorem pairwise_extract (h : config.extract root = .ok cs) :
    cs.Pairwise fun a b => ¬a.SameClass b := by
  obtain ⟨_, _, _, _, _, -, -, -, rfl⟩ := extract_eq_ok.1 h
  exact ComboSet.pairwise_firsts _

/-! ## Home rows compared -/

variable {row : List Nat}

theorem looksAlike_homeRow (config : Config) (row : List Nat) :
    LooksAlike config { config with homeRow := row } :=
  ⟨rfl, rfl, rfl⟩

theorem Complete.of_subset (hrow : ∀ p ∈ row, p ∈ config.homeRow) (h : config.Complete root) :
    Complete { config with homeRow := row } root := by
  obtain ⟨callee, baseLayer, layers, base, rfl, hbase, hpairs⟩ := h
  have halike := looksAlike_homeRow config row
  exact ⟨callee, baseLayer, layers, base, rfl, halike.isLayer hbase,
    fun i hi j hj => halike.completeAt (hpairs i (hrow i hi) j (hrow j hj))⟩

theorem Finds.of_subset (hrow : ∀ p ∈ row, p ∈ config.homeRow)
    (h : Finds { config with homeRow := row } root c) : config.Finds root c := by
  have halike := (looksAlike_homeRow config row).symm
  cases h with
  | intro hbase hi hj hc hkeeps =>
    exact .intro (halike.isLayer hbase) (hrow _ hi) (hrow _ hj) (halike.yields hc) hkeeps

/-- With fewer positions extraction succeeds whenever it did, and finds no other classes. -/
theorem extract_of_subset (config : Config) (row : List Nat)
    (hrow : ∀ p ∈ row, p ∈ config.homeRow) (h : config.extract root = .ok cs) :
    ∃ ds, extract { config with homeRow := row } root = .ok ds ∧
      ∀ d ∈ ds, ∃ c ∈ cs, c.SameClass d := by
  have hcomplete : Complete { config with homeRow := row } root :=
    (extract_isOk_iff.1 ⟨cs, h⟩).of_subset hrow
  obtain ⟨ds, hds⟩ := extract_isOk_iff.2 hcomplete
  exact ⟨ds, hds, fun d hd => exists_mem_of_finds h ((finds_of_mem hds hd).of_subset hrow)⟩

/-- With the same positions extraction succeeds as before, and finds the same classes. -/
theorem extract_of_same_positions (config : Config) (row : List Nat)
    (hrow : ∀ p, p ∈ row ↔ p ∈ config.homeRow) (h : config.extract root = .ok cs) :
    ∃ ds, extract { config with homeRow := row } root = .ok ds ∧ Combo.SameCombos cs ds := by
  obtain ⟨ds, hds, hsub⟩ := extract_of_subset config row (fun p => (hrow p).1) h
  obtain ⟨cs', hcs', hsup⟩ := extract_of_subset { config with homeRow := row } config.homeRow
    (fun p => (hrow p).2) hds
  obtain rfl : cs = cs' := Except.ok.inj (h.symm.trans hcs')
  exact ⟨ds, hds, Combo.sameCombos_of_classes (pairwise_extract h) (pairwise_extract hds) hsup hsub⟩

/-- **Extraction is monotone in the home row.** If all positions of another home row occur in the
    given one, extraction succeeds with it whenever it succeeds with the given one, and returns no
    combo that is not returned for that. If the two have the same positions, as when one is a
    permutation of the other, extraction succeeds with both or with neither, and returns the same
    combos but for their order and that of their participants. -/
theorem extract_homeRow (config : Config) (row : List Nat) (root : Term) :
    ((∀ p ∈ row, p ∈ config.homeRow) → ∀ cs, config.extract root = .ok cs →
      ∃ ds, extract { config with homeRow := row } root = .ok ds ∧
        ∀ d ∈ ds, ∃ c ∈ cs, d.same c = true) ∧
    ((∀ p, p ∈ row ↔ p ∈ config.homeRow) →
      ((∃ cs, config.extract root = .ok cs) ↔
        ∃ ds, extract { config with homeRow := row } root = .ok ds) ∧
      ∀ cs ds, config.extract root = .ok cs →
        extract { config with homeRow := row } root = .ok ds → Combo.SameCombos cs ds) := by
  constructor
  · intro hrow cs h
    obtain ⟨ds, hds, hsub⟩ := extract_of_subset config row hrow h
    refine ⟨ds, hds, fun d hd => ?_⟩
    obtain ⟨c, hc, hcd⟩ := hsub d hd
    exact ⟨c, hc, Combo.same_eq_true_iff.2 hcd.symm⟩
  · intro hrow
    refine ⟨⟨?_, ?_⟩, ?_⟩
    · rintro ⟨cs, h⟩
      obtain ⟨ds, hds, -⟩ := extract_of_same_positions config row hrow h
      exact ⟨ds, hds⟩
    · rintro ⟨ds, hds⟩
      obtain ⟨cs, hcs, -⟩ := extract_of_same_positions { config with homeRow := row }
        config.homeRow (fun p => (hrow p).symm) hds
      exact ⟨cs, hcs⟩
    · intro cs ds hcs hds
      obtain ⟨ds', hds', hsame⟩ := extract_of_same_positions config row hrow hcs
      obtain rfl : ds = ds' := Except.ok.inj (hds.symm.trans hds')
      exact hsame

theorem extract_homeRow_swapped :
    extract { Config.default with homeRow := [0, 1] } (.call "KEYMAP"
      [.call "LAYOUT" [.call "LT" [.integer 8, .name "KC_A"],
          .call "LT" [.integer 8, .name "KC_B"]],
        .call "LAYOUT" [.name "KC_C", .name "KC_C"]]) = .ok [⟨"KC_A", "KC_B", "KC_C"⟩] ∧
    extract { Config.default with homeRow := [1, 0] } (.call "KEYMAP"
      [.call "LAYOUT" [.call "LT" [.integer 8, .name "KC_A"],
          .call "LT" [.integer 8, .name "KC_B"]],
        .call "LAYOUT" [.name "KC_C", .name "KC_C"]]) = .ok [⟨"KC_B", "KC_A", "KC_C"⟩] ∧
    (∀ d ∈ [⟨"KC_B", "KC_A", "KC_C"⟩], ∃ c ∈ [⟨"KC_A", "KC_B", "KC_C"⟩],
      Combo.same d c = true) ∧
    Combo.SameCombos [⟨"KC_A", "KC_B", "KC_C"⟩] [⟨"KC_B", "KC_A", "KC_C"⟩] := by
  obtain ⟨hmono, hsame⟩ := extract_homeRow { Config.default with homeRow := [0, 1] } [1, 0]
    (.call "KEYMAP"
      [.call "LAYOUT" [.call "LT" [.integer 8, .name "KC_A"],
          .call "LT" [.integer 8, .name "KC_B"]],
        .call "LAYOUT" [.name "KC_C", .name "KC_C"]])
  have hrow : ∀ p, p ∈ [1, 0] ↔ p ∈ [0, 1] := by simp [or_comm]
  obtain ⟨ds, hds, hsub⟩ := hmono (fun p => (hrow p).1) [⟨"KC_A", "KC_B", "KC_C"⟩] (by decide)
  obtain rfl : [⟨"KC_B", "KC_A", "KC_C"⟩] = ds := Except.ok.inj (Eq.trans (by decide) hds)
  exact ⟨by decide, hds, hsub, (hsame hrow).2 _ _ (by decide) hds⟩

end Config

end KeyCombo

import KeyCombo.Proofs.FirstOccurrences
import KeyCombo.Proofs.HomeRowPositions

set_option autoImplicit false

/-! # Looking up and selecting

Extraction first looks all pairs of home-row positions up, which may fail, and then selects from the
combos that it found, which cannot fail. Only the second part takes notice of the transparent key
code, and it commutes with every filter that treats the combos of a class alike. So it makes no
difference for the combos of other results what the transparent key code is. -/

namespace KeyCombo

/-! ## First members as first occurrences -/

namespace Combo

theorem firstsAfter_eq_eraseDupsBy {r : Combo → Combo → Bool}
    (hr : ∀ a b, r a b = true ↔ SameClass a b) (earlier cs : List Combo) :
    firstsAfter earlier cs =
      (cs.filter fun c => decide ¬∃ d ∈ earlier, SameClass d c).eraseDupsBy r := by
  induction cs generalizing earlier with
  | nil => rfl
  | cons c cs ih =>
    have hconcat : ∀ e, (∃ d ∈ earlier ++ [c], SameClass d e) ↔
        (∃ d ∈ earlier, SameClass d e) ∨ SameClass c e := by
      intro e
      simp only [List.mem_append, List.mem_singleton, or_and_right, exists_or, exists_eq_left]
    rw [firstsAfter, ih]
    by_cases hc : ∃ d ∈ earlier, SameClass d c
    · rw [if_pos hc, List.filter_cons_of_neg (by simpa using hc)]
      congr 1
      refine List.filter_congr fun e _ => decide_eq_decide.2 (not_congr ?_)
      obtain ⟨d, hd, hdc⟩ := hc
      rw [hconcat]
      exact ⟨fun h => h.elim id fun hce => ⟨d, hd, hdc.trans hce⟩, Or.inl⟩
    · rw [if_neg hc, List.filter_cons_of_pos (by simpa using hc), List.eraseDupsBy_cons,
        List.filter_filter]
      congr 2
      refine List.filter_congr fun e _ => ?_
      have hre : r e c = false ↔ ¬SameClass c e := by
        rw [← Bool.not_eq_true, hr]
        exact not_congr ⟨SameClass.symm, SameClass.symm⟩
      rw [Bool.eq_iff_iff, Bool.and_eq_true, decide_eq_true_iff, decide_eq_true_iff,
        decide_eq_true_iff, hconcat, hre, not_or, and_comm]

/-- First members are the first occurrences for every test that tells the classes apart. -/
theorem firsts_eq_eraseDupsBy {r : Combo → Combo → Bool}
    (hr : ∀ a b, r a b = true ↔ SameClass a b) (cs : List Combo) :
    firsts cs = cs.eraseDupsBy r := by
  rw [firsts, firstsAfter_eq_eraseDupsBy hr]
  simp

theorem firsts_eq_eraseDupsBy_same (cs : List Combo) : firsts cs = cs.eraseDupsBy same :=
  firsts_eq_eraseDupsBy (fun _ _ => same_eq_true_iff) cs

theorem filter_firsts {p : Combo → Bool} (hp : ∀ a b, SameClass a b → p a = p b)
    (cs : List Combo) : (firsts cs).filter p = firsts (cs.filter p) := by
  rw [firsts_eq_eraseDupsBy_same, firsts_eq_eraseDupsBy_same]
  exact filter_eraseDupsBy (fun a b h => hp b a (same_eq_true_iff.1 h)) cs

theorem firsts_map {f : Combo → Combo} (hf : ∀ a b, SameClass (f a) (f b) ↔ SameClass a b)
    (cs : List Combo) : firsts (cs.map f) = (firsts cs).map f := by
  have hr : ∀ a b, same (f a) (f b) = true ↔ SameClass a b := fun a b =>
    same_eq_true_iff.trans (hf a b)
  rw [firsts_eq_eraseDupsBy_same, eraseDupsBy_map, firsts_eq_eraseDupsBy hr]

theorem firsts_eraseDups (cs : List Combo) : firsts cs.eraseDups = firsts cs := by
  rw [firsts_eq_eraseDupsBy_same, firsts_eq_eraseDupsBy_same]
  exact eraseDupsBy_eraseDups (fun a => same_eq_true_iff.2 (.refl a)) cs

end Combo

/-! ## The two parts of an extraction -/

namespace Config

/-- The layers of a keymap, and the entries of its base layer. -/
def opened (config : Config) (root : Term) : Except ShapeError (List Term × List Term) := do
  let layers ← root.layers
  let baseLayer :: _ := layers | throw .noLayers
  return (layers, ← config.layerKeys baseLayer)

/-- The combos of all pairs of home-row positions, before any of them is dropped. -/
def lookUps (config : Config) (root : Term) : Except ShapeError (List Combo) := do
  let (layers, base) ← config.opened root
  config.pairs.mapM fun (i, j) => config.comboAt layers base i j

/-- The first of each class among the looked-up combos that are kept. -/
def select (config : Config) (found : List Combo) : List Combo :=
  Combo.firsts (found.filter config.keeps)

theorem extract_eq_map_select (config : Config) (root : Term) :
    config.extract root = (config.lookUps root).map config.select := by
  unfold extract lookUps opened
  simp only [ComboSet.toList_ofList]
  cases root.layers with
  | error e => rfl
  | ok layers =>
    cases layers with
    | nil => rfl
    | cons baseLayer layers =>
      simp only [bind, Except.bind]
      cases config.layerKeys baseLayer with
      | error e => rfl
      | ok base =>
        simp only [pure, Except.pure]
        cases config.pairs.mapM fun p => config.comboAt (baseLayer :: layers) base p.1 p.2 <;> rfl

variable {a b : Config}

theorem LooksAlike.opened_eq (h : LooksAlike a b) (root : Term) :
    a.opened root = b.opened root := by
  simp only [opened, h.layerKeys_eq]

/-- What is looked up depends on the home row and on how entries are read. -/
theorem LooksAlike.lookUps_eq (h : LooksAlike a b) (hrow : a.homeRow = b.homeRow) (root : Term) :
    a.lookUps root = b.lookUps root := by
  simp only [lookUps, pairs, h.opened_eq, h.comboAt_eq, hrow]

/-! ## The transparent key code -/

/-- Dropping the combos with another result afterwards is the same as dropping them at once. -/
theorem filter_select (config : Config) (other : String) (found : List Combo) :
    (config.select found).filter (fun c => c.result ≠ other) =
      Combo.firsts (found.filter fun c =>
        c.left ≠ c.right ∧ c.result ≠ config.transparent ∧ c.result ≠ other) := by
  have hclass : ∀ a b, Combo.SameClass a b →
      decide (a.result ≠ other) = decide (b.result ≠ other) := by
    intro a b h
    rw [h.1]
  rw [select, Combo.filter_firsts hclass, List.filter_filter]
  congr 1
  refine List.filter_congr fun c _ => ?_
  simp only [keeps, Bool.decide_and, Bool.and_comm, Bool.and_left_comm]

/-- **The transparent key code only drops combos.** With another transparent key code extraction
    fails with the same error, or succeeds as well and returns the same list but for the combos
    whose result is one of the two key codes. -/
theorem extract_transparent (config : Config) (other : String) (root : Term) :
    (∃ e, config.extract root = .error e ∧
      extract { config with transparent := other } root = .error e) ∨
    ∃ cs ds, config.extract root = .ok cs ∧
      extract { config with transparent := other } root = .ok ds ∧
      cs.filter (fun c => c.result ≠ other) = ds.filter fun c => c.result ≠ config.transparent := by
  have halike : LooksAlike config { config with transparent := other } := ⟨rfl, rfl, rfl⟩
  have hlookUps := halike.lookUps_eq rfl root
  rw [extract_eq_map_select, extract_eq_map_select, ← hlookUps]
  cases config.lookUps root with
  | error e => exact Or.inl ⟨e, rfl, rfl⟩
  | ok found =>
    refine Or.inr ⟨_, _, rfl, rfl, ?_⟩
    rw [filter_select, filter_select]
    congr 1
    refine List.filter_congr fun c _ => decide_eq_decide.2 (and_congr_right' ?_)
    exact and_comm

end Config

end KeyCombo

import KeyCombo.Proofs.Lookup
import Mathlib.Data.List.ProdSigma

set_option autoImplicit false

/-! # Extraction by plain listing

What a successful extraction returns, said without errors and without sets: all pairs are listed,
each is looked up, the pairs that are no combos are removed, and of each class of combos the first
member is kept, which is found by comparing combos with one another. -/

namespace KeyCombo.Config

/-- The number of the layer that counts for pairs that start with an entry: the number in a toggle
    less the offset, or the base layer. -/
def layerOf? (config : Config) : Term → Option Nat
  | .call callee args =>
    if callee = config.toggleMarker then
      match args with
      | .integer number :: _ => (number.toInt - config.layerOffset.toInt).toNat?
      | _ => none
    else some 0
  | _ => some 0

/-- The combo of two positions, if everything that it takes is there. -/
def lookUp (config : Config) (layers : List Term) (i j : Nat) : Option Combo := do
  let (_, base) ← (← layers[0]?).call?
  let first ← base[i]?
  let second ← base[j]?
  let (_, keys) ← (← layers[← config.layerOf? first]?).call?
  let third ← keys[j]?
  return ⟨← (config.keyCode first).toOption, ← (config.keyCode second).toOption,
    ← (config.keyCode third).toOption⟩

/-- The combos of a keymap, found by listing and comparing. -/
def naiveExtract (config : Config) (root : Term) : Option (List Combo) := do
  let (_, layers) ← root.call?
  let found ← (config.homeRow ×ˢ config.homeRow).mapM fun (i, j) => config.lookUp layers i j
  return Combo.firsts (found.filter fun c => c.left ≠ c.right ∧ c.result ≠ config.transparent)

variable {config : Config}

theorem SwitchesTo.layerOf?_eq_some {t : Term} {n : Nat} (h : config.SwitchesTo t n) :
    config.layerOf? t = some n := by
  cases h with
  | toggle hnumber _ =>
    rw [layerOf?, if_pos rfl]
    exact Int.mem_toNat?.2 hnumber
  | other ht =>
    cases t with
    | call callee args => exact if_neg fun heq => ht args (by rw [heq])
    | _ => rfl

theorem Yields.lookUp_eq_some {callee : String} {layers base : List Term} {i j : Nat} {c : Combo}
    (h : config.Yields (.call callee base :: layers) base i j c) :
    config.lookUp (.call callee base :: layers) i j = some c := by
  obtain ⟨hfirst, hleft, hsecond, hright, hlayer, htarget, hkeys, hthird, hresult⟩ := h
  obtain ⟨_, rfl, -⟩ := layerKeys_eq_ok.1 hkeys
  have hlayer' := hlayer.layerOf?_eq_some
  simp [lookUp, Term.call?, hfirst, hleft, hsecond, hright, hlayer', htarget, hthird, hresult,
    Except.toOption]

theorem mapM_eq_some {α β : Type} {f : α → Option β} {xs : List α} {ys : List β}
    (h : List.Forall₂ (fun x y => f x = some y) xs ys) : xs.mapM f = some ys := by
  induction h with
  | nil => rfl
  | cons hx _ ih => simp [hx, ih]

/-- **Extraction is what plain listing gives**, in the same order and with the participants in the
    same order, whenever it succeeds. -/
theorem naiveExtract_of_extract {root : Term} {cs : List Combo}
    (h : config.extract root = .ok cs) : config.naiveExtract root = some cs := by
  obtain ⟨callee, baseLayer, layers, base, found, rfl, hbase, hfound, rfl⟩ := extract_eq_ok.1 h
  obtain ⟨layout, rfl, -⟩ := layerKeys_eq_ok.1 hbase
  have hpairs : config.pairs = config.homeRow ×ˢ config.homeRow := rfl
  rw [hpairs] at hfound
  have hall := mapM_eq_some (hfound.imp fun _ _ hp => Yields.lookUp_eq_some hp)
  have hkeeps : (found.filter fun c => c.left ≠ c.right ∧ c.result ≠ config.transparent) =
      found.filter config.keeps := by
    refine List.filter_congr fun c _ => ?_
    simp [keeps]
  simp only [naiveExtract, Term.call?, Option.bind_eq_bind, Option.bind_some, hall, hkeeps]
  rfl

theorem naiveExtract_of_extract_repeated :
    extract { Config.default with homeRow := [0, 1, 1] } (.call "KEYMAP"
      [.call "LAYOUT" [.call "LT" [.integer 8, .name "KC_A"], .name "KC_B"],
        .call "LAYOUT" [.name "KC_C", .name "KC_D"]]) =
      .ok [⟨"KC_A", "KC_B", "KC_D"⟩, ⟨"KC_B", "KC_A", "KC_A"⟩] ∧
    naiveExtract { Config.default with homeRow := [0, 1, 1] } (.call "KEYMAP"
      [.call "LAYOUT" [.call "LT" [.integer 8, .name "KC_A"], .name "KC_B"],
        .call "LAYOUT" [.name "KC_C", .name "KC_D"]]) =
      some [⟨"KC_A", "KC_B", "KC_D"⟩, ⟨"KC_B", "KC_A", "KC_A"⟩] := by
  have h : extract { Config.default with homeRow := [0, 1, 1] } (.call "KEYMAP"
      [.call "LAYOUT" [.call "LT" [.integer 8, .name "KC_A"], .name "KC_B"],
        .call "LAYOUT" [.name "KC_C", .name "KC_D"]]) =
      .ok [⟨"KC_A", "KC_B", "KC_D"⟩, ⟨"KC_B", "KC_A", "KC_A"⟩] := by decide
  exact ⟨h, naiveExtract_of_extract h⟩

end KeyCombo.Config

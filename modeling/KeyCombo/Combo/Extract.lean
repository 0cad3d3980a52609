import KeyCombo.Combo.Set
import KeyCombo.Layer

set_option autoImplicit false

/-! # Extracting combos

Every ordered pair of home-row positions stands for pressing the keys at both of them on the base
layer. The first key counts as a toggle: the pair yields what stands at the second position on the
layer that the first key switches to, or on the base layer if it switches to none. Pairs of one
key with itself, and pairs that yield the transparent key code, are no combos. Of several pairs
that are the same key press the first one is kept.

All pairs are looked up before any of them is dropped, so a keymap that is broken at a pair
without a combo is broken all the same. -/

namespace KeyCombo

/-- The entry at a position of a layer with the given entries and number. -/
def entryAt (keys : List Term) (position layer : Nat) : Except ShapeError Term :=
  match keys[position]? with
  | some entry => .ok entry
  | none => .error (.noSuchKey layer keys.length position)

namespace Config

/-- The ordered pairs of home-row positions, row by row. -/
def pairs (config : Config) : List (Nat × Nat) :=
  config.homeRow.flatMap fun i => config.homeRow.map fun j => (i, j)

/-- What pressing the keys at two positions of the base layer yields. -/
def comboAt (config : Config) (layers base : List Term) (i j : Nat) : Except ShapeError Combo := do
  let leftEntry ← entryAt base i 0
  let left ← config.keyCode leftEntry
  let right ← config.keyCode (← entryAt base j 0)
  let layer := (← config.layerTarget leftEntry).getD 0
  let some target := layers[layer]? | throw (.noSuchLayer i layer layers.length)
  let result ← config.keyCode (← entryAt (← config.layerKeys target) j layer)
  return ⟨left, right, result⟩

/-- Whether a pair of keys is a combo: it takes two different keys and yields something. -/
def keeps (config : Config) (c : Combo) : Bool :=
  c.left ≠ c.right && c.result ≠ config.transparent

/-- The combos of a keymap, in the order in which they are found. -/
def extract (config : Config) (root : Term) : Except ShapeError (List Combo) := do
  let layers ← root.layers
  let baseLayer :: _ := layers | throw .noLayers
  let base ← config.layerKeys baseLayer
  let found ← config.pairs.mapM fun (i, j) => config.comboAt layers base i j
  return (ComboSet.ofList (found.filter config.keeps)).toList

end Config

end KeyCombo

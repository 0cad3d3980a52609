set_option autoImplicit false

/-! # Configuration

What a keymap leaves open: which matrix positions take part in combos, how layers and layer
toggles are spelled, and how the generated arrays are called. -/

namespace KeyCombo

/-- The adjustable constants of combo extraction. -/
structure Config where
  /-- The matrix positions that take part in combos. -/
  homeRow : List Nat
  /-- The callee of entries that switch to a layer while they are held. -/
  toggleMarker : String
  /-- What is subtracted from the number in a toggle to get the number of its layer. -/
  layerOffset : Int64
  /-- The key code of a key that does nothing of its own. Combos with this result are dropped. -/
  transparent : String
  /-- What the callee of every layer starts with. -/
  layoutPrefix : String
  /-- What the name of every generated array starts with. -/
  comboPrefix : String
deriving DecidableEq, Repr

/-- The constants of a split keyboard with two home rows of four keys each. -/
def Config.default : Config where
  homeRow := [15, 16, 17, 18, 53, 54, 55, 56]
  toggleMarker := "LT"
  layerOffset := 7
  transparent := "KC_TRANSPARENT"
  layoutPrefix := "LAYOUT"
  comboPrefix := "_combo_"

end KeyCombo

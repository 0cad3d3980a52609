set_option autoImplicit false

/-! # Combos

A combo is two keys that are pressed together and what that yields. It remembers in which order
its keys were found, because it is written out in that order, but two combos are the same key
press if they differ in nothing else. The key of a combo names the two participants in a fixed
order, so that equal keys mean the same key press. -/

namespace KeyCombo

/-- Two keys, in the order in which they were found, and what they yield together. -/
structure Combo where
  left : String
  right : String
  result : String
deriving DecidableEq, Repr

namespace Combo

/-- The participants in lexicographic order, and the result. -/
def key (c : Combo) : String × String × String :=
  if c.left ≤ c.right then (c.left, c.right, c.result) else (c.right, c.left, c.result)

/-- Whether two combos are the same key press with the same result. -/
def same (a b : Combo) : Bool := a.key = b.key

/-- The hash of a combo is one of its key, so same combos have the same hash. -/
instance : Hashable Combo := ⟨fun c => hash c.key⟩

end Combo

end KeyCombo

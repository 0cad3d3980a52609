import KeyCombo.Combo.Basic
import KeyCombo.Config

set_option autoImplicit false

/-! # Listings

Combos are written as two blocks of lines, one line for each combo in each block. Line `n` of the
declarations defines an array of the participants of combo `n`, line `n` of the registrations
refers to that array by its name and gives the result. -/

namespace KeyCombo

/-- The two blocks that are generated for combos. -/
structure Listing where
  declarations : String
  registrations : String
deriving DecidableEq, Repr

namespace Config

/-- The name of the array of combo `n`. -/
def arrayName (config : Config) (n : Nat) : String := config.comboPrefix ++ toString n

/-- The line that declares the array of combo `n`. -/
def declaration (config : Config) (n : Nat) (c : Combo) : String :=
  "const uint16_t PROGMEM " ++ config.arrayName n ++ "[] = \x7b" ++ c.left ++ ", " ++ c.right
    ++ ", COMBO_END\x7d;"

/-- The line that registers combo `n`. -/
def registration (config : Config) (n : Nat) (c : Combo) : String :=
  "COMBO(" ++ config.arrayName n ++ ", " ++ c.result ++ "),"

/-- The listing of combos. -/
def listing (config : Config) (cs : List Combo) : Listing where
  declarations := "\n".intercalate (cs.mapIdx config.declaration)
  registrations := "\n".intercalate (cs.mapIdx config.registration)

end Config

/-- A listing as one text: the declarations, then the registrations. -/
def Listing.text (l : Listing) : String := l.declarations ++ "\n" ++ l.registrations ++ "\n"

end KeyCombo

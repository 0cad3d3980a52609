import KeyCombo.Numeral
import KeyCombo.Text.Blank

set_option autoImplicit false

/-! # Home-row lists

Positions are typed as a list with commas, such as `15-18, 53`. A part is one position or a range
of them with both ends included; blanks around a part or around the ends of a range do not count,
and neither does a part that is blank. The parts are judged from left to right. -/

namespace KeyCombo

/-- Why a text is no list of positions. -/
inductive HomeRowError where
  | badStart (part : String) (fault : Numeral.Fault)
  | badEnd (part : String) (fault : Numeral.Fault)
  | badPosition (part : String) (fault : Numeral.Fault)
  | emptyRange (part : String)
  | noPositions
deriving DecidableEq, Repr

namespace HomeRowError

/-- The wording of a home-row error. -/
def message : HomeRowError → String
  | .badStart part _ => s!"bad range start in `{part}`"
  | .badEnd part _ => s!"bad range end in `{part}`"
  | .badPosition part _ => s!"bad position `{part}`"
  | .emptyRange part => s!"empty range `{part}`"
  | .noPositions => "no home-row positions given"

/-- The fault of a numeral that is behind a home-row error. -/
def fault? : HomeRowError → Option Numeral.Fault
  | .badStart _ fault | .badEnd _ fault | .badPosition _ fault => some fault
  | .emptyRange _ | .noPositions => none

end HomeRowError

namespace HomeRow

/-- Positions are below this bound. -/
def bound : Nat := UInt64.size

/-- A position on its own, or an end of a range; a fault becomes the given error. -/
def position (error : Numeral.Fault → HomeRowError) (cs : List Char) : Except HomeRowError Nat :=
  (Numeral.readBelow bound cs).mapError error

/-- The positions of a part. The first dash parts the ends of a range. -/
def expand (part : List Char) : Except HomeRowError (List Nat) :=
  match part.dropWhile (· ≠ '-') with
  | [] => return [← position (.badPosition (.ofList part)) part]
  | _ :: after => do
    let first ← position (.badStart (.ofList part)) (Text.trim (part.takeWhile (· ≠ '-')))
    let last ← position (.badEnd (.ofList part)) (Text.trim after)
    if first ≤ last then return List.range' first (last + 1 - first)
    else throw (.emptyRange (.ofList part))

/-- The parts of a list that are not blank, without the blanks around them. -/
def parts (cs : List Char) : List (List Char) :=
  ((cs.splitOn ',').map Text.trim).filter (· ≠ [])

/-- The positions in a list, of which there has to be one at least. -/
def parse (text : String) : Except HomeRowError (List Nat) := do
  let positions := (← (parts text.toList).mapM expand).flatten
  if positions = [] then throw .noPositions
  return positions

end HomeRow

end KeyCombo

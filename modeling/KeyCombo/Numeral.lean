set_option autoImplicit false

/-! # Decimal numerals

Integers are written in decimal without leading zeros, and read from any run of ASCII digits.
Two readers differ in what they promise. `readBelow` serves positions: it works through the
digits from left to right and reports the first character that spoils the numeral. `int64?`
serves literals: it takes the mathematical value of the whole run, of any length, and then asks
whether that value is a 64-bit signed integer, so no literal is ever wrapped or cut. -/

namespace KeyCombo.Numeral

/-! ## Writing -/

/-- The decimal text of an integer: a minus sign if it is negative, then its digits. -/
def ofInt : Int → String
  | .ofNat n => toString n
  | .negSucc n => "-" ++ toString (n + 1)

/-! ## Reading below a bound -/

/-- Why a text is no numeral with a value below the bound. -/
inductive Fault where
  | empty
  | invalidDigit
  | tooLarge
deriving DecidableEq, Repr

/-- The wording of a fault. -/
def Fault.message : Fault → String
  | .empty => "cannot parse integer from empty string"
  | .invalidDigit => "invalid digit found in string"
  | .tooLarge => "number too large to fit in target type"

/-- Reads on from the value `n` of the digits before. The first character that is no digit, or
    that takes the value to the bound, decides the fault. -/
def readDigits (bound : Nat) : Nat → List Char → Except Fault Nat
  | n, [] => .ok n
  | n, c :: cs =>
    if c.isDigit then
      if Nat.ofDigitChars 10 [c] n < bound then readDigits bound (Nat.ofDigitChars 10 [c] n) cs
      else .error .tooLarge
    else .error .invalidDigit

/-- A numeral with a value below `bound`: at most one plus sign, then one or more digits. -/
def readBelow (bound : Nat) : List Char → Except Fault Nat
  | [] => .error .empty
  | ['+'] => .error .invalidDigit
  | '+' :: cs => readDigits bound 0 cs
  | cs => readDigits bound 0 cs

/-! ## Reading signed 64-bit integers -/

/-- The value of one or more ASCII digits, leading zeros allowed. -/
def unsigned? (cs : List Char) : Option Nat :=
  if !cs.isEmpty && cs.all Char.isDigit then some (Nat.ofDigitChars 10 cs 0) else none

/-- The value of at most one sign followed by one or more ASCII digits. -/
def signed? : List Char → Option Int
  | '-' :: cs => (unsigned? cs).map fun n : Nat => -(n : Int)
  | '+' :: cs => (unsigned? cs).map fun n : Nat => (n : Int)
  | cs => (unsigned? cs).map fun n : Nat => (n : Int)

/-- The 64-bit integer that a text stands for, if its value is one. -/
def int64? (text : String) : Option Int64 :=
  match signed? text.toList with
  | some v =>
    if h : Int64.minValue.toInt ≤ v ∧ v ≤ Int64.maxValue.toInt then
      some (Int64.ofIntLE v h.1 h.2)
    else none
  | none => none

end KeyCombo.Numeral

set_option autoImplicit false

/-! # Blank characters

The characters with the Unicode property White_Space, and texts without such characters at their
ends. Keymap text itself knows fewer blanks; this class is for what is typed on a command
line. -/

namespace KeyCombo.Text

/-- The first and last characters of the ranges that make up White_Space. -/
def blankRanges : List (Char × Char) :=
  [('\u0009', '\u000d'), ('\u0020', '\u0020'), ('\u0085', '\u0085'), ('\u00a0', '\u00a0'),
   ('\u1680', '\u1680'), ('\u2000', '\u200a'), ('\u2028', '\u2029'), ('\u202f', '\u202f'),
   ('\u205f', '\u205f'), ('\u3000', '\u3000')]

/-- Whether a character has the Unicode property White_Space. -/
def isBlank (c : Char) : Bool := blankRanges.any fun (first, last) => first ≤ c && c ≤ last

/-- A text without the blanks at its start. -/
def trimStart (cs : List Char) : List Char := cs.dropWhile isBlank

/-- A text without the blanks at its ends. -/
def trim (cs : List Char) : List Char := (trimStart (trimStart cs).reverse).reverse

end KeyCombo.Text

set_option autoImplicit false

/-! # Pieces of a text

Every text falls into pieces in one way: longest runs of word characters, longest runs of blank
characters, and each other character alone. No token is longer than a piece, so a scanner can
judge the pieces one by one.

Pieces are built from the right: a character joins the piece behind it exactly when both are
word characters or both are blank ones, so each run is as long as it can be. -/

namespace KeyCombo.Text

/-! ## Classes of characters -/

/-- The blank characters of keymap text: space, tab, carriage return, line feed, form feed,
    vertical tab and the null character. -/
def isSkip (c : Char) : Bool :=
  c = ' ' || c = '\t' || c = '\r' || c = '\n' || c = '\x0c' || c = '\x0b' || c = '\x00'

/-- The characters of a name: ASCII letters and the underscore. -/
def isNameChar (c : Char) : Bool := c.isAlpha || c = '_'

/-- The characters of a word: those of a name, and ASCII digits. -/
def isWordChar (c : Char) : Bool := isNameChar c || c.isDigit

/-- Whether two neighbouring characters belong to one piece. -/
def joins (c d : Char) : Bool := (isWordChar c && isWordChar d) || (isSkip c && isSkip d)

/-! ## Splitting -/

/-- Puts a character in front of pieces: into the first of them if it joins that one. -/
def attach (c : Char) : List (List Char) → List (List Char)
  | (d :: run) :: rest =>
    if joins c d then (c :: d :: run) :: rest else [c] :: (d :: run) :: rest
  | rest => [c] :: rest

/-- The pieces of a text, in order. -/
def pieces (cs : List Char) : List (List Char) := cs.foldr attach []

@[simp] theorem pieces_nil : pieces [] = [] := rfl

@[simp] theorem pieces_cons (c : Char) (cs : List Char) :
    pieces (c :: cs) = attach c (pieces cs) := rfl

end KeyCombo.Text

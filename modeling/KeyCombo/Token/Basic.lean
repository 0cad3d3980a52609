set_option autoImplicit false

/-! # Tokens

A token is a lexeme (its kind and its text) together with the position of its first character.
The span of a token is not stored: it starts at the token's offset and is as long as its text. -/

namespace KeyCombo

/-! ## Positions -/

/-- A place in a text: how many bytes of UTF-8 precede it, and its line and column. Lines and
    columns count from one, and a column is one Unicode scalar wide. -/
structure Position where
  offset : Nat
  line : Nat
  column : Nat
deriving DecidableEq, Repr

/-- The place of the first character of a text. -/
def Position.start : Position := ⟨0, 1, 1⟩

/-- The place behind a character. Only a line feed ends a line. -/
def Position.after (p : Position) (c : Char) : Position :=
  if c = '\n' then ⟨p.offset + c.utf8Size, p.line + 1, 1⟩
  else ⟨p.offset + c.utf8Size, p.line, p.column + 1⟩

/-- The place behind a run of characters. -/
def Position.afterAll (p : Position) (cs : List Char) : Position :=
  cs.foldl Position.after p

@[simp] theorem Position.afterAll_nil (p : Position) : p.afterAll [] = p := rfl

@[simp] theorem Position.afterAll_cons (p : Position) (c : Char) (cs : List Char) :
    p.afterAll (c :: cs) = (p.after c).afterAll cs := rfl

theorem Position.afterAll_append (p : Position) (as bs : List Char) :
    p.afterAll (as ++ bs) = (p.afterAll as).afterAll bs :=
  List.foldl_append ..

/-! ## Kinds and tokens -/

/-- What a token is. The words `def` and `end` are kinds of their own. -/
inductive TokenKind where
  | defWord
  | endWord
  | identifier
  | integer
  | leftParen
  | comma
  | rightParen
deriving DecidableEq, Repr

/-- How a kind is called in messages. -/
def TokenKind.label : TokenKind → String
  | .defWord => "def"
  | .endWord => "end"
  | .identifier => "identifier"
  | .integer => "integer"
  | .leftParen => "`(`"
  | .comma => "`,`"
  | .rightParen => "`)`"

/-- How a kind is called in a listing of tokens. -/
def TokenKind.title : TokenKind → String
  | .defWord => "Def"
  | .endWord => "End"
  | .identifier => "Identifier"
  | .integer => "Integer"
  | .leftParen => "LeftParen"
  | .comma => "Comma"
  | .rightParen => "RightParen"

/-- A lexeme and the position of its first character. -/
structure Token where
  kind : TokenKind
  text : String
  position : Position
deriving DecidableEq, Repr

namespace Token

/-- A token without its position. -/
def lexeme (t : Token) : TokenKind × String := (t.kind, t.text)

/-- The byte offsets at which a token starts and ends. -/
def span (t : Token) : Nat × Nat :=
  (t.position.offset, t.position.offset + t.text.utf8ByteSize)

/-- A token as a line of a listing: its kind and its text. -/
def listed (t : Token) : String := t.kind.title ++ " " ++ t.text

end Token

end KeyCombo

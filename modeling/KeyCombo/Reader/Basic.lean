import KeyCombo.Token.Basic

set_option autoImplicit false

/-! # Readers

A reader works on the tokens that are left. It takes tokens from the front of the list, and the
list that remains is its cursor, also after a failure: whoever reads on starts where the failing
reader stopped. Readers that only look ahead, and readers that fail on the very next token, take
nothing. -/

namespace KeyCombo

/-! ## Errors -/

/-- What a reader was looking for. -/
inductive Expected where
  | kind (kind : TokenKind)
  | expression
  | endOfInput
deriving DecidableEq, Repr

/-- How an expectation is called in messages. -/
def Expected.label : Expected → String
  | .kind k => k.label
  | .expression => "expression"
  | .endOfInput => "end of input"

/-- Why tokens cannot be read. -/
inductive ReadError where
  | unexpected (expected : Expected) (found : TokenKind) (position : Position)
  | endOfInput (expected : Expected)
  | outOfRange (text : String)
deriving DecidableEq, Repr

namespace ReadError

/-- The wording of a read error. -/
def message : ReadError → String
  | .unexpected expected found position =>
    s!"Expected token type {expected.label}, but got {found.label} at "
      ++ s!"{position.line}:{position.column}"
  | .endOfInput expected => s!"Unexpected end of input, expected {expected.label}"
  | .outOfRange text => s!"Integer literal out of range: {text}"

/-- The error of a reader that finds the given tokens in place of what it looks for. -/
def missing (expected : Expected) : List Token → ReadError
  | [] => .endOfInput expected
  | t :: _ => .unexpected expected t.kind t.position

end ReadError

/-! ## Readers -/

/-- A reader turns the tokens that are left into a result, or an error, and the tokens that are
    left then. -/
abbrev Reader := EStateM ReadError (List Token)

namespace Reader

/-- What a reader makes of a token list, whatever it leaves of it. -/
def outcome {α : Type} (reader : Reader α) (ts : List Token) : Except ReadError α :=
  match reader ts with
  | .ok a _ => .ok a
  | .error e _ => .error e

/-- Fails for want of what is expected, and takes nothing. -/
def fail {α : Type} (expected : Expected) : Reader α := fun ts =>
  .error (.missing expected ts) ts

/-- Whether the token `offset` places ahead is of a kind. Looking past the end is an error. -/
def peek (kind : TokenKind) (offset : Nat) : Reader Bool := fun ts =>
  match ts[offset]? with
  | some t => .ok (t.kind = kind) ts
  | none => .error (.endOfInput (.kind kind)) ts

/-- Whether the token `offset` places ahead is there and of a kind. -/
def check (kind : TokenKind) (offset : Nat) : Reader Bool := fun ts =>
  .ok (ts[offset]?.any (·.kind = kind)) ts

/-- Takes the next token, which has to be of a kind. -/
def take (kind : TokenKind) : Reader Token
  | t :: ts => if t.kind = kind then .ok t ts else fail (.kind kind) (t :: ts)
  | [] => fail (.kind kind) []

/-- Succeeds if no token is left. -/
def expectEnd : Reader Unit
  | [] => .ok () []
  | t :: ts => fail .endOfInput (t :: ts)

end Reader

end KeyCombo

import KeyCombo.Reader.Definition

set_option autoImplicit false

/-! # Single reading steps

A reader can be driven step by step. A step that fails does not end the run: the next step works
on the tokens that the failing one left. -/

namespace KeyCombo.Reader

/-- What a reader can be told to do. -/
inductive Step where
  | peek (kind : TokenKind) (offset : Nat)
  | check (kind : TokenKind) (offset : Nat)
  | take (kind : TokenKind)
  | term
  | definition
  | expectEnd
deriving Repr

/-- What a step yields. -/
inductive Yield where
  | flag (value : Bool)
  | token (token : Token)
  | term (term : Term)
  | nothing
deriving Repr

/-- Carries out a step. -/
def perform : Step → Reader Yield
  | .peek kind offset => return .flag (← peek kind offset)
  | .check kind offset => return .flag (← check kind offset)
  | .take kind => return .token (← take kind)
  | .term => return .term (← term)
  | .definition => return .term (← definition)
  | .expectEnd => do
    expectEnd
    return .nothing

/-- Carries out steps one after the other, each on the tokens that the one before left, whether
    or not that one failed. -/
def performAll : List Step → List Token → List (EStateM.Result ReadError (List Token) Yield)
  | [], _ => []
  | step :: steps, ts =>
    match perform step ts with
    | .ok y rest => .ok y rest :: performAll steps rest
    | .error e rest => .error e rest :: performAll steps rest

end KeyCombo.Reader

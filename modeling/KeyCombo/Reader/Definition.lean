import KeyCombo.Reader.Term

set_option autoImplicit false

/-! # Reading definitions

A definition is `def`, a name, a list of parameter names between parentheses, one term, and
`end`. Unlike a term, a definition that is read as a whole has to use up its tokens. -/

namespace KeyCombo

namespace Reader

/-- Reads further parameters, each behind a comma. -/
def moreParams : Reader (List String)
  | [] => .ok [] []
  | t :: ts =>
    if t.kind = .comma then
      match ts with
      | [] => fail (.kind .identifier) []
      | p :: ts =>
        if p.kind = .identifier then
          match moreParams ts with
          | .ok ps rest => .ok (p.text :: ps) rest
          | .error e rest => .error e rest
        else fail (.kind .identifier) (p :: ts)
    else .ok [] (t :: ts)

/-- Reads the parameters between the parentheses of a definition, if there are any. -/
def paramNames : Reader (List String) := do
  if ← check .identifier 0 then
    let first ← take .identifier
    let others ← moreParams
    return first.text :: others
  else return []

/-- Reads one definition and leaves what follows it. -/
def definition : Reader Term := do
  let _ ← take .defWord
  let name ← take .identifier
  let _ ← take .leftParen
  let params ← paramNames
  let _ ← take .rightParen
  let body ← term
  let _ ← take .endWord
  return .definition name.text params body

/-- Reads one definition behind which no token is left. -/
def wholeDefinition : Reader Term := do
  let t ← definition
  expectEnd
  return t

end Reader

/-- The definition that a token list as a whole is. -/
def Term.definitionOfTokens (ts : List Token) : Except ReadError Term :=
  Reader.wholeDefinition.outcome ts

end KeyCombo

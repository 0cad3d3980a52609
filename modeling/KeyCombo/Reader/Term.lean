import KeyCombo.Numeral
import KeyCombo.Reader.Basic
import KeyCombo.Term.Basic

set_option autoImplicit false

/-! # Reading terms

A term is read in one pass over the tokens. The calls whose argument lists are still open are
kept on a stack, innermost first, so the pass is a recursion on the tokens alone. The grammar
needs one token of lookahead: a name is the callee of a call exactly when an opening parenthesis
follows it. -/

namespace KeyCombo

namespace Reader

/-- A call whose argument list has not been closed, and its arguments so far, last one first. -/
structure OpenCall where
  callee : String
  args : List Term
deriving Repr

/-- An open call with one more argument. -/
def OpenCall.push (c : OpenCall) (t : Term) : OpenCall := ⟨c.callee, t :: c.args⟩

/-- The call that an open call becomes at its closing parenthesis. -/
def OpenCall.close (c : OpenCall) : Term := .call c.callee c.args.reverse

mutual

/-- Reads a term that stands within the given open calls, and then on to the end of the outermost
    one. An integer is taken even if its value is out of range. -/
def termWithin (calls : List OpenCall) : Reader Term
  | [] => fail .expression []
  | t :: ts =>
    match t.kind with
    | .integer =>
      match Numeral.int64? t.text with
      | some value => resume calls (.integer value) ts
      | none => .error (.outOfRange t.text) ts
    | .identifier =>
      match ts with
      | [] => resume calls (.name t.text) []
      | p :: ts =>
        if p.kind = .leftParen then
          match ts with
          | [] => fail (.kind .rightParen) []
          | q :: rest =>
            if q.kind = .rightParen then resume calls (.call t.text []) rest
            else termWithin (⟨t.text, []⟩ :: calls) (q :: rest)
        else resume calls (.name t.text) (p :: ts)
    | _ => fail (.kind .identifier) (t :: ts)

/-- Reads on behind a complete term: a comma brings another argument to the innermost open call,
    a closing parenthesis completes that call. -/
def resume (calls : List OpenCall) (term : Term) : Reader Term
  | [] =>
    match calls with
    | [] => .ok term []
    | _ :: _ => fail (.kind .rightParen) []
  | t :: ts =>
    match calls with
    | [] => .ok term (t :: ts)
    | c :: calls =>
      if t.kind = .comma then termWithin (c.push term :: calls) ts
      else if t.kind = .rightParen then resume calls (c.push term).close ts
      else fail (.kind .rightParen) (t :: ts)

end

/-! The tokens may end where a term has to begin, and where one has ended within an open call. -/

variable {calls : List OpenCall}

theorem termWithin_nil : termWithin calls [] = .error (.endOfInput .expression) [] := by
  rw [termWithin.eq_def]
  rfl

theorem resume_nil {c : OpenCall} {t : Term} :
    resume (c :: calls) t [] = .error (.endOfInput (.kind .rightParen)) [] := by
  rw [resume.eq_def]
  rfl

/-- Reads one term and leaves what follows it. -/
def term : Reader Term := termWithin []

end Reader

/-- The term at the front of a token list. What follows it is ignored. -/
def Term.ofTokens (ts : List Token) : Except ReadError Term := Reader.term.outcome ts

end KeyCombo

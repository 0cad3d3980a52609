set_option autoImplicit false

/-! # Terms

A keymap is a term: an integer, a name, or a call of a name with arguments. A definition gives a
name and parameters to a term. Source text holds definitions only at the outermost level, but
the type lets them stand anywhere, so that every operation has to say what it makes of them. -/

namespace KeyCombo

/-- An integer, a name, a call whose arguments are told apart by their place, or a definition. -/
inductive Term where
  | integer (value : Int64)
  | name (text : String)
  | call (callee : String) (args : List Term)
  | definition (head : String) (params : List String) (body : Term)
deriving Repr, Inhabited

namespace Term

/-! ## Forms -/

/-- Which constructor a term is built with. -/
inductive Form where
  | integer
  | name
  | call
  | definition
deriving DecidableEq, Repr

/-- How a form is called in messages. -/
def Form.label : Form → String
  | .integer => "integer"
  | .name => "identifier"
  | .call => "call"
  | .definition => "definition"

/-- The form of a term. -/
def form : Term → Form
  | .integer _ => .integer
  | .name _ => .name
  | .call .. => .call
  | .definition .. => .definition

/-- Callee and arguments of a call. -/
def call? : Term → Option (String × List Term)
  | .call callee args => some (callee, args)
  | _ => none

/-- The text of a name. -/
def name? : Term → Option String
  | .name text => some text
  | _ => none

/-- The value of an integer. -/
def integer? : Term → Option Int64
  | .integer value => some value
  | _ => none

/-! ## Equality

Terms are compared from the root downwards, arguments pairwise. -/

mutual

/-- Whether two terms are the same. -/
def same : Term → Term → Bool
  | .integer v, .integer w => v == w
  | .name a, .name b => a == b
  | .call f as, .call g bs => f == g && sameArgs as bs
  | .definition f ps a, .definition g qs b => f == g && ps == qs && same a b
  | _, _ => false

/-- Whether two lists of terms are the same. -/
def sameArgs : List Term → List Term → Bool
  | [], [] => true
  | a :: as, b :: bs => same a b && sameArgs as bs
  | _, _ => false

end

mutual

theorem same_iff (a b : Term) : same a b = true ↔ a = b := by
  cases a <;> cases b <;>
    simp [same, sameArgs_iff, same_iff, and_assoc]
termination_by structural a

theorem sameArgs_iff (as bs : List Term) : sameArgs as bs = true ↔ as = bs := by
  cases as <;> cases bs <;> simp [sameArgs, same_iff, sameArgs_iff]
termination_by structural as

end

instance : DecidableEq Term := fun a b => decidable_of_iff _ (same_iff a b)

end Term

end KeyCombo

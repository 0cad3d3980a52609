import KeyCombo.Numeral
import KeyCombo.Term.Basic

set_option autoImplicit false

/-! # Printing terms

Terms are printed as source text on one line: no blank but the one behind each comma, and the
ones that set the words of a definition apart. -/

namespace KeyCombo.Term

/-- Items between parentheses, with a comma and a space between neighbours. -/
def parenthesized (items : List String) : String :=
  "(" ++ ", ".intercalate items ++ ")"

mutual

/-- The source text of a term. -/
def render : Term → String
  | .integer value => Numeral.ofInt value.toInt
  | .name text => text
  | .call callee args => callee ++ parenthesized (renderAll args)
  | .definition head params body =>
    "def " ++ head ++ parenthesized params ++ " " ++ render body ++ " end"

/-- The source texts of several terms. -/
def renderAll : List Term → List String
  | [] => []
  | t :: ts => render t :: renderAll ts

end

theorem renderAll_eq_map (ts : List Term) : renderAll ts = ts.map render := by
  induction ts with
  | nil => rfl
  | cons t ts ih => rw [renderAll, ih, List.map_cons]

end KeyCombo.Term

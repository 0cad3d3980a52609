import KeyCombo.Combo.Extract
import KeyCombo.Combo.Listing
import KeyCombo.Error
import KeyCombo.Reader.Definition
import KeyCombo.Term.Print

set_option autoImplicit false

/-! # Keymap sources

From the text of a keymap to its term, its combos and their listing. The stages follow one
another, and each of them sees its whole input: a piece that is no token is reported even if it
stands behind the term. -/

namespace KeyCombo

/-- The tokens of a source. -/
def tokensOfSource (source : String) : Except Error (List Token) :=
  (Token.scan source).mapError .scan

namespace Term

/-- The term at the front of a source. -/
def ofSource (source : String) : Except Error Term := do
  (ofTokens (← tokensOfSource source)).mapError .read

/-- The definition that a source as a whole is. -/
def definitionOfSource (source : String) : Except Error Term := do
  (definitionOfTokens (← tokensOfSource source)).mapError .read

/-- What reading the printed text of a term gives. A definition is read as one. -/
def readBack (t : Term) : Except Error Term :=
  match t.form with
  | .definition => definitionOfSource t.render
  | _ => ofSource t.render

end Term

/-- The listing of the combos of a source. -/
def Config.generate (config : Config) (source : String) : Except Error Listing := do
  let root ← Term.ofSource source
  let combos ← (config.extract root).mapError .shape
  return config.listing combos

/-- The text of the file at a path. -/
def FileSystem.load (files : FileSystem) (path : String) : Except Error String :=
  (files.text path).mapError fun fault => .load ⟨path, fault⟩

end KeyCombo

import KeyCombo.FileSystem
import KeyCombo.Layer
import KeyCombo.Reader.Basic
import KeyCombo.Token.Scan

set_option autoImplicit false

/-! # Errors

Everything that can go wrong between a path and a listing. An error names its stage and its
cause, and its wording is computed from them. -/

namespace KeyCombo

/-- A file that cannot be loaded. -/
structure LoadError where
  path : String
  fault : FileFault
deriving DecidableEq, Repr

/-- The wording of a load error. -/
def LoadError.message (e : LoadError) : String :=
  s!"Unable to read {e.path}: {e.fault.message}"

/-- What went wrong on the way from a file to a listing. -/
inductive Error where
  | load (error : LoadError)
  | scan (error : ScanError)
  | read (error : ReadError)
  | shape (error : ShapeError)
deriving DecidableEq, Repr

namespace Error

/-- The wording of an error. -/
def message : Error → String
  | .load e => e.message
  | .scan e => e.message
  | .read e => e.message
  | .shape e => e.message

/-- The wordings of an error and of what is behind it, outermost first. -/
def causes : Error → List String
  | .load e => [e.message, e.fault.message]
  | e => [e.message]

end Error

end KeyCombo

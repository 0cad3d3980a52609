set_option autoImplicit false

/-! # File systems

What reading a file can come to. All that the program knows of a file system is what it answers
when a file is read, so that is all there is to a file system here. -/

namespace KeyCombo

/-! ## Faults -/

/-- Why a file cannot be read as text. -/
inductive FileFault where
  | notFound
  | notDirectory
  | isDirectory
  | nameTooLong
  | nulInPath
  | notText
  | other (reason : String)
deriving DecidableEq, Repr

/-- The wording of a fault, that of the operating system where it has one. -/
def FileFault.message : FileFault → String
  | .notFound => "No such file or directory (os error 2)"
  | .notDirectory => "Not a directory (os error 20)"
  | .isDirectory => "Is a directory (os error 21)"
  | .nameTooLong => "File name too long (os error 36)"
  | .nulInPath => "file name contained an unexpected NUL byte"
  | .notText => "stream did not contain valid UTF-8"
  | .other reason => reason

/-- The text that bytes encode in UTF-8. A byte order mark is part of the text. -/
def textOfBytes (bytes : ByteArray) : Except FileFault String :=
  match String.fromUTF8? bytes with
  | some text => .ok text
  | none => .error .notText

/-! ## Files -/

/-- A file system: for each path the bytes of the file there, or why there are none. -/
structure FileSystem where
  bytes : String → Except FileFault ByteArray

/-- The text of the file at a path. -/
def FileSystem.text (files : FileSystem) (path : String) : Except FileFault String :=
  files.bytes path >>= textOfBytes

end KeyCombo

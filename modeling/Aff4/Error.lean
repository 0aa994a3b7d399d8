import Aff4.Rust.Str

/-!
# Errors of the reader
-/

namespace Aff4

open Rust

/-- The kinds of I/O errors the reader creates itself. -/
inductive IoErrorKind
  | invalidInput
  | invalidData
  | other
  deriving DecidableEq, Repr

/-- An I/O error. -/
structure IoError where
  kind : IoErrorKind
  message : String
  deriving DecidableEq, Repr

/-- An error of the ZIP reader. -/
structure ZipCoreError where
  message : String
  deriving DecidableEq, Repr

/-- Errors that can occur while opening or reading an AFF4 image. -/
inductive Aff4Error
  | io (error : IoError)
  | zip (error : ZipCoreError)
  | badFormat (message : String)
  | encrypted (message : String)
  deriving DecidableEq, Repr

/-- The text an error is displayed with. -/
def Aff4Error.toText : Aff4Error → String
  | .io error => "I/O error: " ++ error.message
  | .zip error => "ZIP error: " ++ error.message
  | .badFormat message => "not a valid AFF4 image: " ++ message
  | .encrypted message => "encrypted AFF4 stream is not supported: " ++ message

end Aff4

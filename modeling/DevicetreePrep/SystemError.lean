/-
# Failures of the system

What can go wrong with a file: it cannot be opened, or its bytes are no text.
-/

import DevicetreePrep.Text.Quoted
import DevicetreePrep.Text.Utf8

namespace DevicetreePrep

/-- Why a file cannot be opened. -/
inductive FileError
  | notFound
  | notDirectory
  | isDirectory
  | nameTooLong
  /-- Any other error, by its number and its wording. -/
  | other (number : Nat) (text : String)
  deriving DecidableEq, Repr

namespace FileError

/-- The number of the error. -/
def number : FileError → Nat
  | notFound => 2
  | notDirectory => 20
  | isDirectory => 21
  | nameTooLong => 36
  | other n _ => n

/-- The wording of the error. -/
def text : FileError → String
  | notFound => "No such file or directory"
  | notDirectory => "Not a directory"
  | isDirectory => "Is a directory"
  | nameTooLong => "File name too long"
  | other _ t => t

/-- The error of a number. -/
def ofNumber (n : Nat) (text : String) : FileError :=
  ([notFound, notDirectory, isDirectory, nameTooLong].find? (·.number = n)).getD (.other n text)

/-- Whether the error says that there is no such file. -/
def isAbsence : FileError → Bool
  | notFound | notDirectory => true
  | _ => false

end FileError

/-- A failure of the system underneath. -/
inductive SystemError
  /-- The file of this path cannot be opened. -/
  | file (e : FileError) (path : Text)
  /-- The bytes of a file are no text. -/
  | encoding (f : Utf8.Fault)
  /-- A path holds the character that ends a path. -/
  | nullInPath
  /-- A directory is to be searched and is not given. -/
  | pathMissing
  deriving DecidableEq, Repr

/-- The wording of the failure. -/
def SystemError.message : SystemError → String
  | file e path =>
    "[Errno " ++ toString e.number ++ "] " ++ e.text ++ ": " ++ String.ofList (Text.quoted path)
  | encoding f => f.message
  | nullInPath => "embedded null byte"
  | pathMissing => "a directory to search is missing"

end DevicetreePrep

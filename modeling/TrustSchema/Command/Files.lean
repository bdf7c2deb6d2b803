import TrustSchema.Text.Numeral

/-!
Files as the tool sees them: octets behind a path, or a reason why they cannot be read. Beside the
files of the system there are directories that are held in memory.
-/

namespace TrustSchema.Command

/-- Why a file cannot be read. -/
inductive ReadFault where
  | notFound
  | notDirectory
  | isDirectory
  | permissionDenied
  | nameTooLong
  /-- The path holds a character that no path can hold. -/
  | invalidPath
  /-- The octets are not the UTF-8 form of a text. -/
  | notText
  | other (description : String)
  deriving DecidableEq, Repr

/-- The report of a fault. -/
def ReadFault.message : ReadFault → String
  | .notFound => "No such file or directory (os error 2)"
  | .notDirectory => "Not a directory (os error 20)"
  | .isDirectory => "Is a directory (os error 21)"
  | .permissionDenied => "Permission denied (os error 13)"
  | .nameTooLong => "File name too long (os error 36)"
  | .invalidPath => "file name contained an unexpected NUL byte"
  | .notText => "stream did not contain valid UTF-8"
  | .other description => description

/-- The text that octets hold. -/
def textOfBytes (bytes : Bytes) : Except ReadFault Text :=
  match Text.ofUtf8? bytes with
  | some text => .ok text
  | none => .error .notText

/-- A directory without directories in it: its files by name. -/
structure Directory where
  files : List (Text × Bytes)
  deriving Repr

namespace Directory

/-- How many octets a name in a path and a whole path may have. -/
def maxName : Nat := 255
def maxPath : Nat := 4095

/-- Whether a segment of a path stays where it is. -/
def isStay (segment : Text) : Bool :=
  segment = [] || segment = ['.']

/-- Follows the segments of a path from the directory, or from somewhere above it if `inside` is
false. Nothing is known of other files than those of the directory. -/
def follow (d : Directory) (inside : Bool) : List Text → Except ReadFault Bytes
  | [] => .error .isDirectory
  | segment :: rest =>
    if isStay segment then d.follow inside rest
    else if segment = ['.', '.'] then d.follow false rest
    else if maxName < segment.utf8Size then .error .nameTooLong
    else
      match inside, d.files.find? fun file => file.1 = segment with
      | true, some (_, bytes) => if rest.isEmpty then .ok bytes else .error .notDirectory
      | _, _ => .error .notFound

/-- The octets of the file with a given path. -/
def read (d : Directory) (path : Text) : Except ReadFault Bytes :=
  if path.contains '\x00' then .error .invalidPath
  else if path.isEmpty then .error .notFound
  else if maxPath < path.utf8Size then .error .nameTooLong
  else d.follow (path.head? ≠ some '/') (List.splitOn '/' path)

end Directory

end TrustSchema.Command

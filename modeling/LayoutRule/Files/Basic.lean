/-! # Files

Whatever reads files sees them as a function from paths to contents or to the reason for having none. -/

namespace LayoutRule

inductive FileError where
  | notFound
  | isDirectory
  | notDirectory
  | permissionDenied
  | nameTooLong
  | nulInPath
  | notText
  deriving DecidableEq, Repr

def FileError.message : FileError → String
  | notFound => "No such file or directory (os error 2)"
  | isDirectory => "Is a directory (os error 21)"
  | notDirectory => "Not a directory (os error 20)"
  | permissionDenied => "Permission denied (os error 13)"
  | nameTooLong => "File name too long (os error 36)"
  | nulInPath => "file name contained an unexpected NUL byte"
  | notText => "stream did not contain valid UTF-8"

/-- The bytes of each file, by path. -/
structure Files where
  bytes : String → Except FileError ByteArray

namespace Files

/-- Whether a path leads to a file, readable or not. -/
def isFile (files : Files) (path : String) : Bool :=
  match files.bytes path with
  | .ok _ | .error .permissionDenied => true
  | .error _ => false

/-- The contents of a file as text. -/
def text (files : Files) (path : String) : Except FileError String :=
  match files.bytes path with
  | .error e => .error e
  | .ok bytes =>
      match String.fromUTF8? bytes with
      | some s => .ok s
      | none => .error .notText

/-- The bytes of a text are read as that text. -/
theorem text_of_bytes {files : Files} {path text : String} (h : files.bytes path = .ok text.toUTF8) :
    files.text path = .ok text := by
  have hread : String.fromUTF8? text.toUTF8 = some text := dif_pos text.isValidUTF8
  simp only [Files.text, h, hread]

end Files

end LayoutRule

import LayoutRule.Files.Basic

/-! # A directory held in memory

A directory of named files stands for the working directory. Paths are resolved in it component by
component; nothing is known of what lies outside. -/

namespace LayoutRule

structure Directory where
  entries : List (String × ByteArray)

namespace Directory

/-- Where the components of a path lead from the directory. -/
inductive Target where
  | here
  | outside
  | file (bytes : ByteArray)

/-- Splits a path at its slashes. -/
def components (path : String) : List String :=
  path.splitOn "/"

/-- Follows one component; an empty one, and a single point, stay where they are. -/
def follow (d : Directory) (target : Target) (component : String) : Except FileError Target :=
  match target with
  | .file _ => .error .notDirectory
  | .here =>
      if component = "" ∨ component = "." then .ok .here
      else if component = ".." then .ok .outside
      else if 255 < component.utf8ByteSize then .error .nameTooLong
      else match d.entries.lookup component with
        | some bytes => .ok (.file bytes)
        | none => .error .notFound
  | .outside =>
      if component = "" ∨ component = "." ∨ component = ".." then .ok .outside else .error .notFound

/-- The contents at a path. -/
def bytes (d : Directory) (path : String) : Except FileError ByteArray :=
  if path.toList.contains '\x00' then .error .nulInPath
  else if path = "" then .error .notFound
  else if 4095 < path.utf8ByteSize then .error .nameTooLong
  else do
    let start := if path.startsWith "/" then Target.outside else Target.here
    match ← (components path).foldlM d.follow start with
    | .file bytes => .ok bytes
    | .here | .outside => .error .isDirectory

def files (d : Directory) : Files := ⟨d.bytes⟩

end Directory

end LayoutRule

import LayoutRule.Command.Run

/-! # Entry point

Reads the files that a run may need and writes its outcome. -/

namespace LayoutRule.Command

/-- The number of a system error, which some operations negate. -/
def errorNumber (code : UInt32) : Nat :=
  if code.toNat < 2147483648 then code.toNat else 4294967296 - code.toNat

/-- The reason for a failed reading, as far as the system gives it. -/
def fileError : IO.Error → FileError
  | .inappropriateType _ code _ => if errorNumber code = 20 then .notDirectory else .isDirectory
  | .invalidArgument _ code _ => if errorNumber code = 36 then .nameTooLong else .nulInPath
  | .permissionDenied .. => .permissionDenied
  | _ => .notFound

/-- The contents of one file, or the reason for having none. -/
def readPath (path : String) : IO (Except FileError ByteArray) := do
  try
    return .ok (← IO.FS.readBinFile path)
  catch e =>
    return .error (fileError e)

/-- The files at the given paths; no others are seen. -/
def readPaths (paths : List String) : IO Files := do
  let entries ← paths.mapM fun path => do return (path, ← readPath path)
  return ⟨fun path => (entries.lookup path).getD (.error .notFound)⟩

end LayoutRule.Command

open LayoutRule.Command in
def main (args : List String) : IO UInt32 := do
  let outcome := run (← readPaths (paths args)) args
  IO.print outcome.output
  IO.eprint outcome.errors
  return outcome.code.toUInt32

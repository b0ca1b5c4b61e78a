import LayoutRule.Command.Arguments
import LayoutRule.Report
import LayoutRule.Settings.Loader

/-! # The command

A run looks at the format, then at the settings, then at the file, and stops at the first of them that is
wrong. -/

namespace LayoutRule.Command

/-- The exit code of a run, and what it writes. -/
structure Outcome where
  code : Nat
  output : String
  errors : String
  deriving DecidableEq, Repr

namespace Outcome

def success (output : String) : Outcome := ⟨0, output, ""⟩

def failure (message : String) : Outcome := ⟨1, "", "Error: " ++ message ++ "\n"⟩

def usage : String :=
  "Usage: offside [-v...] execute <path> [--format <format>] [--config <file>] [--strict]\n" ++
    "       offside [-v...] list-formats\n"

/-- Help was asked for. -/
def help : Outcome := ⟨0, usage, ""⟩

/-- The arguments could not be understood. -/
def misuse : Outcome := ⟨2, "", usage⟩

end Outcome

/-- The settings of a run: a file over the defaults, and the strict dedent policy over both. -/
def loadConfig (files : Files) (config? : Option String) (strict : Bool) :
    Except Settings.LoadError TrackerConfig := do
  let loader := match config? with
    | some path => Settings.Loader.start.withFile path
    | none => Settings.Loader.start
  let loader ← if strict then loader.withOverride "tracker.dedent" (.string "strict") else pure loader
  loader.load files

/-- Writes the report of a file. -/
def execute (files : Files) (e : Execution) : Outcome :=
  match Format.ofName e.format with
  | .error cause => .failure cause.message
  | .ok format =>
      match loadConfig files e.config? e.strict with
      | .error cause => .failure cause.message
      | .ok config =>
          match reportFile files format config e.path with
          | .error cause => .failure cause.message
          | .ok output => .success output

def formatList : String :=
  "Available formats:\n\n" ++ String.join (Format.all.map fun f => "  " ++ f.name ++ "\n")

/-- Runs the command with the given arguments. -/
def run (files : Files) (args : List String) : Outcome :=
  match read args with
  | .execute e => execute files e
  | .listFormats => .success formatList
  | .version => .success "offside 0.1.0\n"
  | .help => .help
  | .misuse => .misuse

/-- The paths that a run may read. -/
def paths (args : List String) : List String :=
  match read args with
  | .execute e =>
      e.path :: e.config?.elim [] fun path => path :: (Settings.candidates path).map Prod.fst
  | _ => []

end LayoutRule.Command

/-! # Command line arguments -/

namespace LayoutRule.Command

/-- What to report, and under which settings. -/
structure Execution where
  path : String
  format : String
  config? : Option String
  strict : Bool
  deriving DecidableEq, Repr

/-- What the arguments ask for; whatever cannot be understood is misuse. -/
inductive Invocation where
  | execute (execution : Execution)
  | listFormats
  | version
  | help
  | misuse
  deriving DecidableEq, Repr

/-- The arguments of an execution read so far. -/
structure Draft where
  path? : Option String
  format? : Option String
  config? : Option String
  strict : Bool
  deriving DecidableEq, Repr

/-- The options of an execution that take a value. -/
inductive ValueOption where
  | format
  | config
  deriving DecidableEq, Repr

namespace Draft

def empty : Draft := ⟨none, none, none, false⟩

/-- Gives an option its value, which it may have only once. -/
def setValue? (p : Draft) (value : String) : ValueOption → Option Draft
  | .format => if p.format?.isSome then none else some { p with format? := some value }
  | .config => if p.config?.isSome then none else some { p with config? := some value }

def setStrict? (p : Draft) : Option Draft :=
  if p.strict then none else some { p with strict := true }

def setPath? (p : Draft) (path : String) : Option Draft :=
  if p.path?.isSome then none else some { p with path? := some path }

/-- The execution, if it has a path. -/
def finish (p : Draft) : Invocation :=
  match p.path? with
  | some path => .execute ⟨path, p.format?.getD "token-simple", p.config?, p.strict⟩
  | none => .misuse

end Draft

/-- What follows from one argument: the arguments so far with, perhaps, an option that waits for its value;
or the end of the reading. -/
inductive Reading where
  | next (given : Draft) (waiting : Option ValueOption)
  | stop (result : Invocation)
  deriving DecidableEq, Repr

namespace Reading

def ofOption : Option Draft → Reading
  | some p => .next p none
  | none => .stop .misuse

end Reading

/-- Reads the letters of a short argument. An option takes the rest of the letters as its value, without an
equals sign in front of them, or waits for one. -/
def readLetters (p : Draft) : List Char → Reading
  | [] => .next p none
  | 'v' :: cs => readLetters p cs
  | 'h' :: _ => .stop .help
  | 'f' :: cs => attach .format cs
  | 'c' :: cs => attach .config cs
  | _ :: _ => .stop .misuse
where
  attach (option : ValueOption) : List Char → Reading
    | [] => .next p (some option)
    | '=' :: value => .ofOption (p.setValue? (String.ofList value) option)
    | value => .ofOption (p.setValue? (String.ofList value) option)

/-- Reads a long argument, without its hyphens. -/
def readLong (p : Draft) (cs : List Char) : Reading :=
  let name := String.ofList (cs.takeWhile (· != '='))
  let option? : Option ValueOption :=
    if name = "format" then some .format else if name = "config" then some .config else none
  match option?, cs.dropWhile (· != '=') with
  | some option, [] => .next p (some option)
  | some option, _ :: value => .ofOption (p.setValue? (String.ofList value) option)
  | none, [] =>
      if name = "strict" then .ofOption p.setStrict?
      else if name = "verbose" then .next p none
      else if name = "help" then .stop .help
      else .stop .misuse
  | none, _ :: _ => .stop .misuse

/-- Reads the arguments of an execution. Behind two hyphens every argument is a path. -/
def readExecute (p : Draft) (waiting : Option ValueOption) (pathsOnly : Bool) : List String → Invocation
  | [] => if waiting.isSome then .misuse else p.finish
  | arg :: args =>
      let reading :=
        if pathsOnly then .ofOption (p.setPath? arg)
        else match waiting, arg.toList with
          | none, '-' :: '-' :: c :: cs => readLong p (c :: cs)
          | none, '-' :: c :: cs => if c = '-' then .next p none else readLetters p (c :: cs)
          | none, _ => .ofOption (p.setPath? arg)
          | some option, ['-'] => .ofOption (p.setValue? arg option)
          | some _, '-' :: _ => .stop .misuse
          | some option, _ => .ofOption (p.setValue? arg option)
      match reading with
      | .next p waiting => readExecute p waiting (pathsOnly || arg == "--") args
      | .stop result => result

/-- Whether an argument only asks for more words on the error stream. -/
def isVerbosity (arg : String) : Bool :=
  match arg.toList with
  | '-' :: 'v' :: cs => cs.all (· = 'v')
  | _ => arg = "--verbose"

/-- Reads the arguments of a listing, which has no other argument than how many words to make. -/
def readListFormats : List String → Invocation
  | [] => .listFormats
  | arg :: args =>
      if arg = "--" then (if args.isEmpty then .listFormats else .misuse)
      else if isVerbosity arg then readListFormats args
      else if arg = "--help" then .help
      else match arg.toList with
        | '-' :: 'v' :: cs => if (cs.dropWhile (· = 'v')).head? = some 'h' then .help else .misuse
        | '-' :: 'h' :: _ => .help
        | _ => .misuse

/-- Reads all arguments: how many words to make, and then a subcommand with its own arguments. -/
def read : List String → Invocation
  | [] => .misuse
  | arg :: args =>
      if arg = "execute" then readExecute .empty none false args
      else if arg = "list-formats" then readListFormats args
      else if arg = "help" then .help
      else if isVerbosity arg then read args
      else if arg = "--version" then .version
      else if arg = "--help" then .help
      else match arg.toList with
        | '-' :: cs =>
            match cs.dropWhile (· = 'v') with
            | 'V' :: _ => .version
            | 'h' :: _ => .help
            | _ => .misuse
        | _ => .misuse

end LayoutRule.Command

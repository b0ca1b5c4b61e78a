import LayoutRule.Files.Basic
import LayoutRule.Json.Reader
import LayoutRule.Settings.Decode
import LayoutRule.Settings.Store
import LayoutRule.Toml.Reader

/-! # Loading settings

Settings come in layers: the defaults, then files in order, then single overrides, whenever those were
made. A layer replaces what it names and leaves the rest. -/

namespace LayoutRule.Settings

inductive LoadError where
  | path (cause : PathError)
  | notParsed
  | decode (cause : DecodeError)
  | notFound (path : String)
  | unknownFormat (name : String)
  | unreadable (cause : FileError)
  deriving DecidableEq, Repr

/-- The message without any introduction. -/
def LoadError.message : LoadError → String
  | path e => e.message
  | notParsed => "configuration file could not be parsed"
  | decode e => e.message
  | notFound name => "configuration file \"" ++ name ++ "\" not found"
  | unknownFormat name => "configuration file \"" ++ name ++ "\" is not of a registered file format"
  | unreadable e => e.message

/-! ## Finding files -/

/-- The formats that are read. A loader may register others under their own extensions; a file of one of those is of
an unknown format here. -/
inductive FileKind where
  | toml
  | json
  deriving DecidableEq, Repr

namespace FileKind

def all : List FileKind := [toml, json]

def extension : FileKind → String
  | toml => "toml"
  | json => "json"

end FileKind

/-- Drops slashes at the end of a path, and points that stand alone there; what is left is reversed. -/
def dropTrailing : List Char → List Char
  | '/' :: cs => dropTrailing cs
  | '.' :: '/' :: cs => dropTrailing cs
  | cs => cs

/-- The path without an empty end. -/
def trimPath (path : String) : List Char :=
  (dropTrailing path.toList.reverse).reverse

/-- The last component of a path; one that leads upwards is no name. -/
def fileName? (path : String) : Option (List Char) :=
  match ((trimPath path).reverse.takeWhile (· != '/')).reverse with
  | [] | ['.'] | ['.', '.'] => none
  | name => some name

/-- The part of a name behind its last point, if something stands before the point. -/
def extensionOf (name : List Char) : List Char :=
  match name.reverse.dropWhile (· != '.') with
  | [] | [_] => []
  | _ :: _ :: _ => (name.reverse.takeWhile (· != '.')).reverse

/-- The paths that are tried when a path is no file itself: a known extension is appended. -/
def candidates (path : String) : List (String × FileKind) :=
  match fileName? path with
  | none => []
  | some _ => FileKind.all.map fun kind => (String.ofList (trimPath path) ++ "." ++ kind.extension, kind)

/-- Finds the file of a path and the kind of its contents. -/
def locate (files : Files) (path : String) : Except LoadError (String × FileKind) :=
  if files.isFile path then
    let name := (fileName? path).getD []
    match FileKind.all.find? fun kind => kind.extension.toList == extensionOf name with
    | some kind => .ok (path, kind)
    | none => .error (.unknownFormat (String.ofList name))
  else
    match (candidates path).find? fun c => files.isFile c.1 with
    | some found => .ok found
    | none => .error (.notFound path)

/-- The fields of a document of the given kind. -/
def parseDocument (kind : FileKind) (text : String) : Except LoadError (List (String × Json)) :=
  match (match kind with
    | .toml => Toml.read? text
    | .json => Json.read? text) with
  | some (.object fields) => .ok fields
  | _ => .error .notParsed

/-! ## The loader -/

/-- A file laid over the settings before it; an optional one may be missing or unreadable. -/
structure FileLayer where
  path : String
  required : Bool
  deriving DecidableEq, Repr

structure Loader where
  layers : List FileLayer
  overrides : List (KeyPath × Json)

/-- The settings below every file. -/
def defaults : Json :=
  .object [("tracker", .object [("dedent", .string "lenient"), ("after_end", .string "repeat")])]

namespace Loader

def start : Loader := ⟨[], []⟩

def withFile (loader : Loader) (path : String) : Loader :=
  { loader with layers := loader.layers ++ [⟨path, true⟩] }

def withOptionalFile (loader : Loader) (path : String) : Loader :=
  { loader with layers := loader.layers ++ [⟨path, false⟩] }

/-- Gives a path its value: in the old place of the path if it has one. -/
def putOverride (path : KeyPath) (value : Json) : List (KeyPath × Json) → List (KeyPath × Json)
  | [] => [(path, value)]
  | (p, v) :: rest => if p = path then (p, value) :: rest else (p, v) :: putOverride path value rest

def withOverride (loader : Loader) (key : String) (value : Json) : Except LoadError Loader :=
  match KeyPath.read key with
  | .error e => .error (.path e)
  | .ok path => .ok { loader with overrides := putOverride path value loader.overrides }

/-- The text of a settings file, and its kind. -/
def openFile (files : Files) (path : String) : Except LoadError (FileKind × String) :=
  match locate files path with
  | .error e => .error e
  | .ok (found, kind) =>
      match files.text found with
      | .ok text => .ok (kind, text)
      | .error e => .error (.unreadable e)

/-- Lays one file over the store. -/
def addFile (files : Files) (store : Json) (file : FileLayer) : Except LoadError Json :=
  match openFile files file.path with
  | .ok (kind, text) => (parseDocument kind text).map (layer store)
  | .error e => if file.required then .error e else .ok store

/-- The store of all layers. -/
def store (loader : Loader) (files : Files) : Except LoadError Json := do
  let store ← loader.layers.foldlM (addFile files) defaults
  return loader.overrides.foldl (fun store (path, value) => put path value store) store

/-- The policies that the layers add up to. -/
def load (loader : Loader) (files : Files) : Except LoadError TrackerConfig := do
  let store ← loader.store files
  match decodeTracker ((store.field? "tracker").getD .null) with
  | .ok config => return config
  | .error e => throw (.decode e)

end Loader

end LayoutRule.Settings

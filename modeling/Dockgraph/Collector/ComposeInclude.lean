import Dockgraph.Library.Text
import Mathlib.Data.Finset.Insert

/-!
# Includes of compose files (`collector/compose_include.go`)

An included project is loaded once and reused. The limits are checked along the chain of files that
include it, where it is loaded, and not where it is reused.
-/
namespace Dockgraph.Collector

/-! ## Paths (`path/filepath`) -/

def isAbs (path : String) : Bool := path.toList.head? = some '/'

/-- Body of the loop over the parts of a path. -/
def cleanPart (rooted : Bool) (out : List (List Char)) (part : List Char) : List (List Char) :=
  if part = [] ∨ part = ['.'] then out
  else if part ≠ ['.', '.'] then out ++ [part]
  else if out = [] then if rooted then [] else [part]
  else if out.getLast? = some ['.', '.'] then out ++ [part]
  else out.dropLast

/-- `filepath.Clean`. -/
def cleanPath (path : String) : String :=
  let parts := (Text.split '/' path.toList).foldl (cleanPart (isAbs path)) []
  let text := String.ofList (List.intercalate ['/'] parts)
  if isAbs path then "/" ++ text else if parts = [] then "." else text

/-- `filepath.Join` of two elements. -/
def joinPath (dir path : String) : String :=
  if dir = "" then if path = "" then "" else cleanPath path else cleanPath (dir ++ "/" ++ path)

/-- `filepath.Dir`. -/
def dirPath (path : String) : String :=
  cleanPath (String.ofList (path.toList.reverse.dropWhile fun c => c ≠ '/').reverse)

/-- The path as it is or relative to the directory, cleaned. -/
def resolvePath (dir path : String) : String := if isAbs path then cleanPath path else joinPath dir path

/-! ## Include entries -/

/-- The field `path` of a long entry. Elements of a list that are no strings are `none`. -/
inductive PathField
  | string (path : String)
  | list (paths : List (Option String))
  | other

inductive IncludeEntry
  | short (path : String)
  | long (path : PathField) (projectDirectory : Option String)
  | other

/-- The include of a document. -/
inductive DocumentInclude
  | none
  | entries (entries : List IncludeEntry)
  | other

/-- What a file includes, by its path; a file that does not decode includes nothing. The loader
interpolates paths, and accepts every file that is read. -/
structure ComposeFiles where
  documents : String → List DocumentInclude
  interpolate : String → Option String

inductive IncludeError
  | cycle (chain : List String) (path : String)
  | depth (last : String)
  | files
  | notList
  | withoutPath
  | interpolation
  /-- Past the bound on the recursion that the model has in place of the stack. -/
  | unfinished
  deriving DecidableEq

def maxIncludeDepth : Nat := 10
def maxIncludedFiles : Nat := 256

/-- The texts, but for what interpolation reports. -/
def IncludeError.message : IncludeError → String
  | cycle chain path =>
    "include cycle detected: " ++ String.intercalate " includes " chain ++ " includes " ++ path
  | depth last => "include: " ++ last ++ ": includes nested more than " ++ toString maxIncludeDepth ++ " files deep"
  | files => "include: more than " ++ toString maxIncludedFiles ++ " included files"
  | notList => "include must be a list"
  | withoutPath => "include entry without a path"
  | interpolation => "include"
  | unfinished => ""

/-- An entry as read, with a path at least. -/
structure IncludeConfig where
  paths : List String
  projectDir : String
  nonempty : paths ≠ []

namespace IncludeEntry

def paths : IncludeEntry → List String
  | short path => [path]
  | long (.string path) _ => [path]
  | long (.list paths) _ => paths.filterMap id
  | long .other _ => []
  | other => []

def projectDir : IncludeEntry → String
  | long _ (some dir) => dir
  | _ => ""

end IncludeEntry

namespace ComposeFiles

variable (F : ComposeFiles)

def includeConfig (entry : IncludeEntry) : Except IncludeError IncludeConfig :=
  match entry.paths.mapM F.interpolate with
  | none => .error .interpolation
  | some paths =>
    if nonempty : paths ≠ [] then
      match F.interpolate entry.projectDir with
      | none => .error .interpolation
      | some projectDir => .ok ⟨paths, projectDir, nonempty⟩
    else .error .withoutPath

def includeConfigs : DocumentInclude → Except IncludeError (List IncludeConfig)
  | .none => .ok []
  | .entries entries => entries.mapM F.includeConfig
  | .other => .error .notList

def usesInclude (path : String) : Bool :=
  (F.documents path).any fun doc => match doc with
    | .none => false
    | _ => true

end ComposeFiles

/-! ## Loading -/

/-- The files of an included project, the first its main one. -/
structure IncludedProject where
  paths : List String
  projectDir : String
  deriving DecidableEq

namespace IncludedProject

/-- The key of `loaded`. -/
def key (p : IncludedProject) : String := String.intercalate "\x00" (p.paths ++ [p.projectDir])

end IncludedProject

def IncludeConfig.project (inc : IncludeConfig) (dir : String) : IncludedProject :=
  let paths := inc.paths.map (resolvePath dir)
  { paths
    projectDir := if inc.projectDir ≠ "" then resolvePath dir inc.projectDir else dirPath (paths.headD "") }

/-- What a parse has included. -/
structure IncludeLoader where
  loaded : Finset String := ∅
  files : Nat := 0
  deriving DecidableEq

namespace ComposeFiles

variable (F : ComposeFiles)

/-- A walk below a file, from the chain of the files that include it. -/
abbrev Descend := String → String → List String → IncludeLoader → Except IncludeError IncludeLoader

/-- A file of a project. -/
def configFile (descend : Descend) (projectDir : String) (chain : List String) (l : IncludeLoader)
    (path : String) : Except IncludeError IncludeLoader :=
  if F.usesInclude path then descend path projectDir chain l else .ok l

def load (descend : Descend) (dir : String) (chain : List String) (l : IncludeLoader)
    (inc : IncludeConfig) : Except IncludeError IncludeLoader :=
  let p := inc.project dir
  match p.paths.find? fun path => path ∈ chain with
  | some path => .error (.cycle chain path)
  | none =>
    if maxIncludeDepth < chain.length then .error (.depth (chain.getLastD ""))
    else if maxIncludedFiles < l.files + p.paths.length then .error .files
    else
      let l := { l with files := l.files + p.paths.length }
      -- neither the chain nor the depth below the project is looked at again
      if p.key ∈ l.loaded then .ok l
      else
        match p.paths.foldlM (F.configFile descend p.projectDir chain) l with
        | .error e => .error e
        | .ok l => .ok { l with loaded := insert p.key l.loaded }

/-- The includes of a document. -/
def loadDocument (descend : Descend) (dir : String) (chain : List String) (l : IncludeLoader)
    (doc : DocumentInclude) : Except IncludeError IncludeLoader :=
  match F.includeConfigs doc with
  | .error e => .error e
  | .ok includes => includes.foldlM (F.load descend dir chain) l

/-- The first argument bounds the depth of the recursion. -/
def model : Nat → Descend
  | 0, _, _, _, _ => .error .unfinished
  | depth + 1, path, dir, chain, l =>
    (F.documents path).foldlM (F.loadDocument (model depth) dir (chain ++ [path])) l

/-- The parse of a main file. -/
def parse (path : String) : Except IncludeError IncludeLoader :=
  F.model (maxIncludeDepth + 1) path (dirPath path) [] {}

end ComposeFiles

example : resolvePath "/srv/app" "../lib/./db.yml" = "/srv/lib/db.yml" := by decide

end Dockgraph.Collector

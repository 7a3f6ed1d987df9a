import AgentDemo.Agent.ResponsePolicy
import AgentDemo.Agent.Text
import AgentDemo.Library.JsonText
import AgentDemo.Library.RealPath
import Mathlib.Data.List.Sort

/-! The plugins that read the files of the workspace: `read_file`, `list_dir`, `search_files`. -/
namespace AgentDemo

open FileTree (Entry Tree Target names)

/-- The files that the backend runs on. `maxLinks` is how many symbolic links the system follows,
`expanduser` is `os.path.expanduser`, and `decodeIgnore` decodes UTF-8 without its invalid bytes. -/
structure Workspace where
  tree : Tree String (List UInt8)
  root : List String
  maxLinks : ℕ
  expanduser : String → String
  lower : String → String
  decodeIgnore : List UInt8 → List Char

inductive PluginError where
  | runtimeError (message : String)
  | symlinkLoop (path : String)
  | valueError (message : String)
  | fileNotFound (message : String)
  deriving DecidableEq, Repr

def forbiddenNames : List String :=
  [".env", ".local", ".venv", "venv", "env", "downloads", "node_modules", "dist", "build",
    "__pycache__"]

/-! ### Paths -/

/-- A `Path`, whose components are neither empty nor `.`. -/
structure PurePath where
  absolute : Bool
  parts : List String
  deriving DecidableEq, Repr

def PurePath.ofText (text : String) : PurePath where
  absolute := text.toList.head? = some '/'
  parts := ((text.toList.splitOn '/').map String.ofList).filter fun part => part ≠ "" ∧ part ≠ "."

/-- `str` of an absolute path. -/
def pathText (path : List String) : String := "/" ++ "/".intercalate path

def toPart (part : String) : FileTree.Part String := if part = ".." then .up else .name part

/-- The components that the plugins do not show, in the order of `sorted`. -/
def protectedParts (path : List String) : List String :=
  (forbiddenNames.filter fun name => name ∈ path).insertionSort (· ≤ ·)

namespace Workspace

variable (w : Workspace)

/-- `Path(path).expanduser()`. -/
def expanded (path : PurePath) : Except PluginError PurePath :=
  match path.absolute, path.parts with
  | false, first :: rest =>
    if first.toList.head? = some '~' then
      let home := w.expanduser first
      if home.toList.head? = some '~' then
        .error (.runtimeError "Could not determine home directory.")
      else .ok ⟨(PurePath.ofText home).absolute, (PurePath.ofText home).parts ++ rest⟩
    else .ok path
  | _, _ => .ok path

/-- The path from the root of the file system that a plugin is asked for. -/
def requested (text : String) : Except PluginError (List (FileTree.Part String)) :=
  match w.expanded (.ofText text) with
  | .error e => .error e
  | .ok path => .ok (if path.absolute then path.parts.map toPart
      else names w.root ++ path.parts.map toPart)

/-- What the system finds under a path. -/
def opened (path : List String) : Option (Entry String (List UInt8)) :=
  match w.tree.walk w.maxLinks [] (names path) with
  | .ok loc => w.tree.get loc
  | .error _ => none

def resolveWorkspacePath (text : String) : Except PluginError (List String) :=
  match w.requested text with
  | .error e => .error e
  | .ok parts =>
    let target := w.tree.realPath w.maxLinks parts
    match w.tree.walk w.maxLinks [] (names target) with
    | .error .loop => .error (.symlinkLoop (pathText target))
    | _ => .ok target

def ensureAllowedPath (verb : String) (target : List String) : Except PluginError Unit :=
  if w.root <+: target then
    match protectedParts target with
    | [] => .ok ()
    | blocked :: _ =>
      .error (.valueError ("Refusing to " ++ verb ++ " protected path segment: " ++ blocked))
  else .error (.valueError ("Refusing to " ++ verb ++ " outside workspace: " ++ pathText target))

def allowedTarget (verb text : String) : Except PluginError (List String) :=
  match w.resolveWorkspacePath text with
  | .error e => .error e
  | .ok target =>
    match w.ensureAllowedPath verb target with
    | .error e => .error e
    | .ok () => .ok target

/-- `str(path.relative_to(WORKSPACE_ROOT))`. -/
def relativeText (path : List String) : String :=
  match path.drop w.root.length with
  | [] => "."
  | parts => "/".intercalate parts

/-- `Path.is_dir`. -/
def isDir (path : List String) : Bool :=
  match w.opened path with
  | some .dir => true
  | _ => false

end Workspace

/-- `values[:n]`. -/
def takeInt {α : Type*} (n : ℤ) (values : List α) : List α :=
  if 0 ≤ n then values.take n.toNat else values.take (values.length - n.natAbs)

/-! ### read_file -/

structure FileText where
  path : String
  chars : ℕ
  content : List Char
  deriving DecidableEq, Repr

/-- `run` of `read_file`. -/
def Workspace.readFile (w : Workspace) (path : String) : Except PluginError FileText :=
  match w.allowedTarget "read" path with
  | .error e => .error e
  | .ok target =>
    match w.opened target with
    | none => .error (.fileNotFound ("File not found: " ++ pathText target))
    | some (.file bytes) =>
      match JsonText.decode bytes with
      | none => .error (.valueError ("File is not UTF-8 text: " ++ pathText target))
      | some content => .ok ⟨pathText target, content.length, content.take 8000⟩
    | some _ => .error (.valueError ("Path is not a file: " ++ pathText target))

/-! ### list_dir -/

structure DirEntry where
  name : String
  path : String
  isDirectory : Bool
  deriving DecidableEq, Repr

structure Listing where
  path : String
  entries : List DirEntry
  deriving DecidableEq, Repr

namespace Workspace

variable (w : Workspace)

/-- `target.iterdir()`, by the names of its items. -/
def iterdir (target : List String) : List String :=
  match w.tree.walk w.maxLinks [] (names target) with
  | .ok loc => w.tree.children loc
  | .error _ => []

def sortedChildren (target : List String) : List String :=
  (w.iterdir target).insertionSort fun a b => w.lower a ≤ w.lower b

def dirEntry (target : List String) (name : String) : DirEntry :=
  ⟨name, w.relativeText (target ++ [name]), w.isDir (target ++ [name])⟩

/-- `run` of `list_dir`. -/
def listDir (path : String) (maxEntries : ℤ := 100) : Except PluginError Listing :=
  match w.allowedTarget "list" path with
  | .error e => .error e
  | .ok target =>
    match w.opened target with
    | none => .error (.fileNotFound ("Directory not found: " ++ pathText target))
    | some .dir =>
      .ok ⟨pathText target, ((takeInt maxEntries (w.sortedChildren target)).filter fun name =>
        protectedParts (target ++ [name]) = []).map (w.dirEntry target)⟩
    | some _ => .error (.valueError ("Path is not a directory: " ++ pathText target))

end Workspace

/-! ### search_files -/

def textExtensions : List String :=
  [".md", ".py", ".json", ".toml", ".txt", ".tsx", ".ts", ".css", ".html"]

/-- `Path.suffix`. -/
def nameSuffix (name : String) : String :=
  let after := (name.toList.reverse.takeWhile (· ≠ '.')).reverse
  let before := name.toList.length - after.length
  if 1 < before ∧ after ≠ [] then String.ofList ('.' :: after) else ""

structure SearchHit where
  path : String
  line : ℕ
  text : List Char
  deriving DecidableEq, Repr

namespace Workspace

variable (w : Workspace)

/-- The items below a directory, reached through directories that are no links. -/
def rglob : ℕ → List String → List (List String)
  | 0, _ => []
  | depth + 1, target =>
    (w.iterdir target).map (fun name => target ++ [name]) ++
      ((w.iterdir target).filter fun name =>
        w.tree.lstat w.maxLinks target name = some .dir).flatMap fun name =>
          rglob depth (target ++ [name])

/-- The files that are looked into; a tree is no deeper than it has entries. -/
def searchedFiles (target : List String) : List (List String) :=
  match w.opened target with
  | some (.file _) => [target]
  | _ => w.rglob (w.tree.entries.length + 1) target

def firstLine (needle : String) (text : List Char) : Option (ℕ × List Char) :=
  let lines := splitLines text
  (lines.findIdx? fun line => hasText needle (w.lower (String.ofList line))).map fun i =>
    (i + 1, (lines.getD i []).take 500)

def hitOf (needle : String) (path : List String) : Option SearchHit :=
  match w.opened path with
  | some (.file bytes) =>
    if w.lower (nameSuffix (path.getLastD "")) ∈ textExtensions ∧ protectedParts path = [] then
      (w.firstLine needle (w.decodeIgnore bytes)).map fun found =>
        ⟨w.relativeText path, found.1, found.2⟩
    else none
  | _ => none

def searchLoop (needle : String) (maxResults : ℤ) :
    List SearchHit → List (List String) → List SearchHit
  | results, [] => results
  | results, path :: rest =>
    if maxResults ≤ results.length then results
    else searchLoop needle maxResults (results ++ (w.hitOf needle path).toList) rest

/-- `run` of `search_files`, for its results. -/
def searchFiles (query : String) (path : String := ".") (maxResults : ℤ := 20) :
    Except PluginError (List SearchHit) :=
  if strip query = "" then .error (.valueError "Query is required")
  else
    match w.allowedTarget "search" path with
    | .error e => .error e
    | .ok target =>
      match w.opened target with
      | none => .error (.fileNotFound ("Search path not found: " ++ pathText target))
      | some _ => .ok (w.searchLoop (w.lower query) maxResults [] (w.searchedFiles target))

end Workspace

end AgentDemo

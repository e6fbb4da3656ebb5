import JvmDebug.OsError
import JvmDebug.Path
import JvmDebug.Text.Utf8

/-!
# File trees

The folders, files and links of a host, below its root. A link names its target by a path from the root. `find` says
where a path leads, name by name and over all links; `openFile` opens a file for writing; `filesBelow` finds all files
below a place. The last follows links too, but not one that leads back to a folder which it is just in.
-/

namespace JvmDebug
set_option autoImplicit false

inductive FileTree where
  | file (content : Bytes)
  | folder (entries : List (String × FileTree))
  | link (target : List String)
  deriving Inhabited

namespace FileTree

def isFolder : FileTree → Bool
  | folder _ => true
  | _ => false

def entry? (name : String) : FileTree → Option FileTree
  | folder entries => (entries.find? (·.1 = name)).map (·.2)
  | _ => none

/-- What is at a path that leads over no link. -/
def at? : (path : List String) → FileTree → Option FileTree
  | [], tree => some tree
  | name :: rest, tree => (tree.entry? name).bind (at? rest)

/-- The content of a file, at a path that leads over no link. -/
def read? (path : List String) (tree : FileTree) : Option Bytes :=
  match tree.at? path with
  | some (.file content) => some content
  | _ => none

/-- Puts an entry at a path, making the folders that lead to it. A folder that is there already stays as it is. -/
def insert (entry : FileTree) : (path : List String) → FileTree → FileTree
  | [], tree => if entry.isFolder && tree.isFolder then tree else entry
  | name :: rest, tree =>
    let entries := match tree with
      | .folder entries => entries
      | _ => []
    match entries.find? (·.1 = name) with
    | some (_, old) =>
      .folder (entries.map fun e => if e.1 = name then (name, insert entry rest old) else e)
    | none => .folder (entries ++ [(name, insert entry rest (.folder []))])

/-! Places -/

/-- A place in a tree: the path to it that leads over no link, and what is there. -/
structure Place where
  path : List String
  entry : FileTree

/-- Where names lead: to a place, or to a name that the last folder does not have. -/
inductive Spot where
  | taken (p : Place)
  | free (path : List String)

/-- The folder around a place. The root is around itself. -/
def around (root : FileTree) (here : Place) : Place :=
  let path := here.path.dropLast
  ⟨path, (root.at? path).getD root⟩

/-- The most bytes of a name, and of a path. -/
def nameLimit : Nat := 255
def pathLimit : Nat := 4095

/-- How many links a path may lead over. -/
def linkLimit : Nat := 40

/-- Follows names up to the first link, which gives the names by which to go on from the root. An empty name and a dot
stay in a folder, two dots go to the folder around it. -/
def along (root : FileTree) (here : Place) : (names : List String) → Except OsError (Spot ⊕ List String)
  | [] => .ok (.inl (.taken here))
  | name :: rest =>
    match here.entry with
    | .folder entries =>
      if name = "" ∨ name = "." then along root here rest
      else if name = ".." then along root (root.around here) rest
      else if nameLimit < name.utf8ByteSize then .error .nameTooLong
      else
        let path := here.path ++ [name]
        match entries.find? (·.1 = name) with
        | some (_, .link target) => .ok (.inr (target ++ rest))
        | some (_, entry) => along root ⟨path, entry⟩ rest
        | none => if rest.isEmpty then .ok (.inl (.free path)) else .error .noSuchFile
    | _ => .error .notAFolder

/-- Follows names from the root, over at most `links` links. -/
def resolve (root : FileTree) : (links : Nat) → (names : List String) → Except OsError Spot
  | links, names =>
    match along root ⟨[], root⟩ names with
    | .ok (.inl spot) => .ok spot
    | .ok (.inr names) =>
      match links with
      | 0 => .error .tooManyLinks
      | links + 1 => resolve root links names
    | .error e => .error e

/-- The names that a path is made of. -/
def names (p : Path) : List String := (splitBy (· = '/') p.text.toList).map String.ofList

/-- The names of a path that can be looked up at all. -/
def validNames (p : Path) : Except OsError (List String) :=
  if p.text.toList.contains '\x00' then .error .zeroInPath
  else if p.text.isEmpty then .error .noSuchFile
  else if pathLimit < p.text.utf8ByteSize then .error .nameTooLong
  else .ok (names p)

/-- The place that a path leads to; every path begins at the root. -/
def find (root : FileTree) (p : Path) : Except OsError Place := do
  match ← root.resolve linkLimit (← validNames p) with
  | .taken place => return place
  | .free _ => throw .noSuchFile

/-- The folder that a path leads to. -/
def findFolder (root : FileTree) (p : Path) : Except OsError Place := do
  let place ← root.find p
  if place.entry.isFolder then return place else throw .notAFolder

/-- The path from the root by some names. -/
def ofNames (names : List String) : Path := ⟨"/" ++ "/".intercalate names⟩

def Place.toPath (p : Place) : Path := ofNames p.path

/-- The path to the same place that leads over no link. -/
def canonical? (root : FileTree) (p : Path) : Option Path := (root.find p).toOption.map Place.toPath

/-- The path over no link to a file that can be written to, and whether it is there already. A path that ends in a slash
can only be one of a folder. -/
def spotToWrite (root : FileTree) (p : Path) : Except OsError (List String × Bool) := do
  let names ← validNames p
  if names.getLast? = some "" then
    let _ ← root.resolve linkLimit ((names.reverse.dropWhile (· = "")).tail.reverse ++ [""])
    throw .isAFolder
  match ← root.resolve linkLimit names with
  | .free path => return (path, false)
  | .taken place => if place.entry.isFolder then throw .isAFolder else return (place.path, true)

/-- Opens a file for writing, which is made if it is not there; tells the path to it that leads over no link. -/
def openFile (root : FileTree) (p : Path) : Except OsError Path × FileTree :=
  match root.spotToWrite p with
  | .error e => (.error e, root)
  | .ok (path, isThere) => (.ok (ofNames path), if isThere then root else insert (.file []) path root)

/-! Files -/

/-- The number of files, folders and links. -/
def size : FileTree → Nat
  | .file _ | .link _ => 1
  | .folder entries => 1 + sizeOfEntries entries
where
  sizeOfEntries : List (String × FileTree) → Nat
    | [] => 0
    | (_, entry) :: rest => size entry + sizeOfEntries rest

/-- A file that was found: the path on which it was found, seen from where the search began, and its content. -/
structure Found where
  path : List String
  content : Bytes

/-- The name of a file that was found. -/
def Found.name (f : Found) : String := f.path.getLast?.getD ""

/-- The files at a place; `within` are the folders that lead to it. -/
def walk (root : FileTree) :
    (fuel : Nat) → (within : List (List String)) → (path : List String) → Place → List Found
  | 0, _, _, _ => []
  | fuel + 1, within, path, here =>
    match here.entry with
    | .file content => [⟨path, content⟩]
    | .folder entries =>
      entries.flatMap fun (name, entry) =>
        walk root fuel (here.path :: within) (path ++ [name]) ⟨here.path ++ [name], entry⟩
    | .link target =>
      match root.resolve linkLimit target with
      | .ok (.taken there) => if there.path ∈ within then [] else walk root fuel within path there
      | _ => []

/-- The files below a path. Between two links a search goes down at most as deep as the tree, and no two of the links
that it is in lead to the same folder. -/
def filesBelow (root : FileTree) (p : Path) : List Found :=
  match root.find p with
  | .ok here => walk root ((root.size + 2) * (root.size + 2)) [] [] here
  | .error _ => []

/-- The names of a path without those that lead nowhere, and those that are taken back. -/
def plainNames (p : Path) : List String :=
  (names p).foldl (fun path name =>
    if name = "" ∨ name = "." then path else if name = ".." then path.dropLast else path ++ [name]) []

/-- The folders and files that every host has, as far as they matter. -/
def bare : FileTree :=
  let folders := ["bin", "boot", "dev", "etc", "home", "lib", "media", "mnt", "opt", "proc", "root", "run", "sbin",
    "srv", "sys", "tmp", "usr", "var"]
  let files := [["dev", "null"], ["etc", "hosts"], ["etc", "passwd"]]
  files.foldl (fun tree path => insert (file []) path tree) (.folder (folders.map (·, folder [])))

/-- A host with a workspace in which there are some folders, files and links, each at a path seen from the workspace, as
are the targets of the links. -/
def ofEntries (workspace : Path) (folders : List Path) (files : List (Path × Bytes)) (links : List (Path × Path)) :
    FileTree :=
  let entries := (workspace, folder []) :: folders.map (·, folder []) ++ files.map (fun f => (f.1, file f.2)) ++
    links.map fun l => (l.1, link (names (workspace.join l.2)))
  entries.foldl (fun tree e => insert e.2 (plainNames (workspace.join e.1)) tree) bare

end FileTree
end JvmDebug

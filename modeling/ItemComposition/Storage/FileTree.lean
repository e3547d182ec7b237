/-!
# Trees of files

A tree of files with the times of their last change. A path is a list of names below the root; a
written path is split at its slashes, and starts at the root or at the working directory. Symbolic
links are followed wherever a path leads through them, up to a fixed number of links, and only a
look at the entry itself sees the link.

## Main definitions

- `FileTree.resolve`: the place that a path leads to
- `FileTree.read`, `FileTree.entries`, `FileTree.modified`: the bytes of a file, what a directory
  holds, and the time of the last change of an entry
-/

namespace ItemComposition

/-- Names from the root down. -/
abbrev FilePath := List String

/-- Why a path cannot be used. -/
inductive FileFault where
  | notFound
  | notDirectory
  | isDirectory
  | tooManyLinks
  /-- The bytes are no text. -/
  | notText
  deriving DecidableEq, Repr

/-- The wording of a fault. -/
def FileFault.message : FileFault → String
  | notFound => "No such file or directory (os error 2)"
  | notDirectory => "Not a directory (os error 20)"
  | isDirectory => "Is a directory (os error 21)"
  | tooManyLinks => "Too many levels of symbolic links (os error 40)"
  | notText => "stream did not contain valid UTF-8"

/-- What a path stands for. -/
inductive FileNode where
  | file (bytes : List UInt8)
  | directory
  | link (target : String)
  deriving DecidableEq, Repr

/-- A place in the tree, and when it was last changed. -/
structure FileEntry where
  path : FilePath
  node : FileNode
  modified : Int
  deriving DecidableEq, Repr

/-- A tree of files: its entries, each path once, without the root. -/
structure FileTree where
  all : List FileEntry
  /-- The working directory. -/
  home : FilePath
  deriving DecidableEq, Repr

/-- Whether a written path starts at the root. -/
def FilePath.isAbsolute (path : String) : Bool := path.toList.head? = some '/'

/-- The names in a written path. -/
def FilePath.ofText (path : String) : FilePath :=
  ((path.toList.splitOn '/').map String.ofList).filter (fun name => name ≠ "" && name ≠ ".")

/-- A written path below a written directory. -/
def FilePath.below (directory name : String) : String :=
  if directory = "" || directory.toList.getLast? = some '/' then directory ++ name
  else directory ++ "/" ++ name

namespace FileTree

/-- The tree without entries. -/
def empty (home : FilePath) : FileTree := ⟨[], home⟩

/-- Where a written path starts. -/
def start (tree : FileTree) (path : String) : FilePath :=
  if FilePath.isAbsolute path then [] else tree.home

/-- The entry at a place. -/
def find? (tree : FileTree) (path : FilePath) : Option FileEntry :=
  tree.all.find? (·.path = path)

/-- The number of links that are followed on the way to a place. -/
def maxLinks : Nat := 40

/-- Goes down from a directory. Every link that is met costs one of `links`. -/
def walk (tree : FileTree) (links : Nat) (here : FilePath) (names : List String) :
    Except FileFault FilePath :=
  match names with
  | [] => .ok here
  | name :: rest =>
    -- the root is its own parent
    if name = ".." then walk tree links here.dropLast rest
    else
      match tree.find? (here ++ [name]) with
      | none => .error .notFound
      | some entry =>
        match entry.node with
        | .directory => walk tree links (here ++ [name]) rest
        -- only the last name can be that of a file
        | .file _ => if rest.isEmpty then .ok (here ++ [name]) else .error .notDirectory
        | .link target =>
          match links with
          | 0 => .error .tooManyLinks
          | links + 1 =>
            -- a link that is not absolute starts in the directory that holds it
            let start := if FilePath.isAbsolute target then [] else here
            walk tree links start (FilePath.ofText target ++ rest)
  termination_by (links, names.length)

/-- The place that a written path leads to. -/
def resolve (tree : FileTree) (path : String) : Except FileFault FilePath :=
  if path = "" then .error .notFound
  else walk tree maxLinks (tree.start path) (FilePath.ofText path)

/-- The bytes that reading a path gives. -/
def read (tree : FileTree) (path : String) : Except FileFault (List UInt8) :=
  match tree.resolve path with
  | .error fault => .error fault
  | .ok place =>
    match (tree.find? place).map FileEntry.node with
    | some (.file bytes) => .ok bytes
    | _ => .error .isDirectory

/-- What a directory holds: names with entries, in no particular order. -/
def entries (tree : FileTree) (path : String) : Except FileFault (List (String × FileEntry)) :=
  match tree.resolve path with
  | .error fault => .error fault
  | .ok place =>
    match (tree.find? place).map FileEntry.node with
    | some (.file _) => .error .notDirectory
    -- the root has no entry of its own
    | _ =>
      .ok (tree.all.filterMap fun e =>
        if e.path.length = place.length + 1 && place.isPrefixOf e.path then
          e.path.getLast?.map fun name => (name, e)
        else none)

/-- The place of an entry itself: links on the way to it are followed, but not the last name. -/
def placeOf (tree : FileTree) (path : String) : Except FileFault FilePath :=
  let names := FilePath.ofText path
  match names.getLast? with
  | none => .ok (tree.start path)
  | some name =>
    match walk tree maxLinks (tree.start path) names.dropLast with
    | .error fault => .error fault
    | .ok directory => .ok (directory ++ [name])

/-- When the entry at a path was last changed; a link has a time of its own. -/
def modified (tree : FileTree) (path : String) : Except FileFault Int :=
  match tree.placeOf path with
  | .error fault => .error fault
  | .ok place =>
    match tree.find? place with
    | some entry => .ok entry.modified
    | none => .error .notFound

/-- Puts an entry at its place, over an earlier one. -/
def insert (tree : FileTree) (entry : FileEntry) : FileTree :=
  { tree with all := tree.all.filter (·.path ≠ entry.path) ++ [entry] }

/-- Makes the directories on the way to a place. -/
def makeDirectories (tree : FileTree) (path : FilePath) (time : Int) : FileTree :=
  ((List.range path.length).map (fun n => path.take (n + 1))).foldl
    (fun tree place => if (tree.find? place).isSome then tree else tree.insert ⟨place, .directory, time⟩)
    tree

/-- Puts a node at a written path, with the directories on the way to it. A file that is written
through a link lands where the link leads to. -/
def put (tree : FileTree) (path : String) (node : FileNode) (time : Int) : FileTree :=
  let names := tree.start path ++ FilePath.ofText path
  match node with
  | .directory => tree.makeDirectories names time
  | .link _ => (tree.makeDirectories names.dropLast time).insert ⟨names, node, time⟩
  | .file _ =>
    -- writing through a link changes the file that it leads to
    let place := match tree.resolve path with
      | .ok place => place
      | .error _ => names
    (tree.makeDirectories names.dropLast time).insert ⟨place, node, time⟩

/-- Sets the time of the last change of the file that a path leads to. -/
def touch (tree : FileTree) (path : String) (time : Int) : FileTree :=
  match tree.resolve path with
  | .error _ => tree
  | .ok place =>
    { tree with
      all := tree.all.map fun e => if e.path = place then { e with modified := time } else e }

/-- Removes the entry at a path, with all that is below it. -/
def remove (tree : FileTree) (path : String) : FileTree :=
  let place := tree.start path ++ FilePath.ofText path
  { tree with all := tree.all.filter fun e => !place.isPrefixOf e.path }

end FileTree

end ItemComposition

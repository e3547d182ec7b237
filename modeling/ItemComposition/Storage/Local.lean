import ItemComposition.Storage.Basic

/-!
# Templates in a directory

Every file in a directory whose extension is `yaml` is one template stream, and its name without
the extension is the key. A full refresh reads the files that changed since they were stored; the
others are stamped anew, so that a sweep by age keeps what still exists. A file that fails leaves
its key as it was and does not keep the others from being read.

A file is read under the time at which its reading began, so that a change during the reading
makes the next refresh read it again.
-/

namespace ItemComposition

/-- A directory of template files: how it is found in the surroundings, and how the bytes of a
file become a value. -/
structure LocalStorage (ν σ : Type) where
  directory : String
  files : σ → FileTree
  parse : List UInt8 → σ → Except StreamError ν × σ

/-- A template file: its key and its path. -/
structure TemplateFile where
  id : String
  path : String
  deriving DecidableEq, Repr

/-- A file name up to its last dot, and what follows; none for a name whose only dot is its first
character. -/
def splitExtension (name : String) : Option (String × String) :=
  let ext := name.toList.reverse.takeWhile (· ≠ '.')
  let stem := (name.toList.reverse.drop (ext.length + 1)).reverse
  if stem.isEmpty || name = ".." then none
  else some (String.ofList stem, String.ofList ext.reverse)

/-- The extension of template files. -/
def templateExtension : String := "yaml"

/-- The template file that an entry of a directory is. -/
def TemplateFile.ofEntry? (directory : String) (entry : String × FileEntry) :
    Option TemplateFile :=
  match entry.2.node, splitExtension entry.1 with
  | .directory, _ => none
  | _, some (stem, ext) =>
    if ext = templateExtension then some ⟨stem, FilePath.below directory entry.1⟩ else none
  | _, none => none

namespace LocalStorage

variable {ν σ : Type}

/-- The template files of the directory in the order of their keys. -/
def templateFiles (s : LocalStorage ν σ) (w : σ) : Except StorageError (List TemplateFile) :=
  match (s.files w).entries s.directory with
  | .error fault => .error (.file .readDirectory s.directory fault)
  | .ok entries =>
    .ok ((entries.filterMap (TemplateFile.ofEntry? s.directory)).mergeSort (fun a b => a.id ≤ b.id))

/-- Reads a file and stores what it holds under the time at which the reading began. -/
def load (s : LocalStorage ν σ) (file : TemplateFile) :
    Cache.Refresh String ν σ (Except StorageError Unit) := do
  let clock ← .readClock
  match ← .observe fun w => (s.files w).read file.path with
  -- a file that cannot be read or parsed leaves the stored value as it is
  | .error fault => return .error (.file .readFile file.path fault)
  | .ok bytes =>
    let result ← .observe fun w => (s.parse bytes w).1
    .alter fun w => (s.parse bytes w).2
    match result with
    | .error cause => return .error (.parse file.id cause)
    | .ok value =>
      .write file.id value clock.wall
      return .ok ()

/-- Stamps a stored value with the current time. -/
def restamp (id : String) : Cache.Refresh String ν σ Unit := do
  match ← .read id with
  | none => return ()
  | some value =>
    let clock ← .readClock
    .write id value clock.wall

/-- Brings the key of a file up to date: a file that is stored and was last changed before that is
not read again. -/
def bring (s : LocalStorage ν σ) (file : TemplateFile) :
    Cache.Refresh String ν σ (Except StorageError Unit) := do
  match ← .readStamp file.id with
  | none => s.load file
  | some stamp =>
    match ← .observe fun w => (s.files w).modified file.path with
    | .error fault => return .error (.file .inspect file.path fault)
    | .ok modified =>
      -- unchanged since it was read: only the stamp moves on
      if modified < stamp then
        restamp file.id
        return .ok ()
      else s.load file

/-- Takes an action on each of the files, and yields the errors in order. -/
def each (action : TemplateFile → Cache.Refresh String ν σ (Except StorageError Unit)) :
    List TemplateFile → Cache.Refresh String ν σ (List StorageError)
  | [] => pure []
  | file :: rest => do
    match ← action file with
    | .ok () => each action rest
    | .error e => return e :: (← each action rest)

/-- Brings every template file up to date. -/
def full (s : LocalStorage ν σ) : Cache.Refresh String ν σ (Except StorageError Unit) := do
  match ← .observe s.templateFiles with
  | .error e => return .error e
  | .ok files => return StorageError.collect (← each s.bring files)

/-- Reads the file of a key, if there is one. -/
def single (s : LocalStorage ν σ) (id : String) :
    Cache.Refresh String ν σ (Except StorageError Unit) := do
  match ← .observe s.templateFiles with
  | .error e => return .error e
  | .ok files => return StorageError.collect (← each s.load (files.filter (·.id = id)))

/-- A directory as a storage. -/
def storage (s : LocalStorage ν σ) : Storage ν σ := ⟨s.full, s.single⟩

end LocalStorage

end ItemComposition

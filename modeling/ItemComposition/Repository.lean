import ItemComposition.Cache.Timeline
import ItemComposition.Storage.Local

/-!
# Repositories of templates

A repository is a cache of templates over storages that are tried in order. The templates are
read from directories by an engine, which also registers the providers in them.
-/

namespace ItemComposition

/-- What template files are read from, and where the providers in them go. -/
structure Workspace (ε : Type) where
  files : FileTree
  registry : Registry ε

/-- Reads a template stream in a workspace. -/
def Engine.parse {ε : Type} (engine : Engine ε) (bytes : List UInt8) (w : Workspace ε) :
    Except StreamError (List Instruction) × Workspace ε :=
  let (reading, result) := engine.read w.registry bytes
  (result.map fun _ => reading.instructions, { w with registry := reading.registry })

/-- A directory whose templates an engine reads. -/
def Engine.localStorage {ε : Type} (engine : Engine ε) (directory : String) :
    LocalStorage (List Instruction) (Workspace ε) :=
  ⟨directory, Workspace.files, engine.parse⟩

/-- A cache over storages: its source and its first state. -/
def Repository.make {ν σ : Type} (options : CacheOptions) (backends : List (Storage ν σ))
    (surroundings : σ) (clock : Cache.Clock) :
    Except StorageError (Cache.Source String ν σ × Cache.State String ν σ) :=
  if backends.isEmpty then .error .noBackends
  else
    match Cache.State.make options surroundings clock with
    | .ok state => .ok (Storage.source backends, state)
    | .error e => .error (.cache e)

end ItemComposition

import ItemComposition.CommandLine.Run

/-!
# What a command reads

The paths that a command may read, as far as what has already been read tells: the configuration
file is named by the arguments, the template directory by the configuration, and schema files by
the templates. Whoever supplies the files asks for these paths again and again until no new one
comes up.
-/

namespace ItemComposition.CommandLine

/-- The path in the value of an option that stands for an object. -/
def objectPath? (value : String) : Option String :=
  match value.toList with
  | '@' :: path => some (String.ofList path)
  | _ => none

/-- The files that a schema file imports, by their paths. -/
def importsOf (files : FileTree) (path : String) : List String :=
  let (directory, name) := Schema.splitPath path
  match textAt files path with
  | .error _ => []
  | .ok text =>
    match Proto.FileDecl.ofSource? name text.toList with
    | none => []
    | some f => f.imports.map fun i => directory ++ i.path

/-- The schema files of the providers in a template file. -/
def schemaFilesOf (c : Circumstances) (path : String) : List String :=
  match c.files.read path with
  | .error _ => []
  | .ok bytes =>
    (Engine.documents bytes).filterMap fun document => do
      let document ← document
      match ProviderSpec.ofDocument c.environment document with
      | .ok spec =>
        match spec.schema with
        | some (.file path) => some path
        | _ => none
      | .error _ => none

/-- Paths with those of the files that they import, up to a depth. -/
def withImports (files : FileTree) : Nat → List String → List String
  | 0, paths => paths
  | depth + 1, paths => paths ++ withImports files depth (paths.flatMap (importsOf files))

/-- The files in a directory, by their paths. -/
def filesIn (files : FileTree) (directory : String) : List String :=
  match files.entries directory with
  | .error _ => []
  | .ok entries => entries.map fun e => FilePath.below directory e.1

/-- How deep imports are followed. -/
def importDepth : Nat := 32

/-- The template files that a command reads, with the directory that they are in. -/
def templatePaths (c : Circumstances) (s : Settings) : Command → List String
  | .validate file => [file]
  | .render templates _ _ _ =>
    let directory := templates.getD s.templateDir
    directory :: filesIn c.files directory

/-- The paths in the options of a command. -/
def optionPaths : Command → List String
  | .validate _ => []
  | .render _ _ item context => (item :: context.toList).filterMap objectPath?

/-- The paths that a command line may read, as far as what has been read tells. -/
def wanted (c : Circumstances) (arguments : List String) : List String :=
  match Invocation.parse arguments with
  | .error _ => []
  | .ok i =>
    let config := i.config.toList.flatMap configPaths
    match settings c i.config with
    -- files that are not reached since something before them fails are not wanted
    | .error _ => config
    | .ok s =>
      let templates := templatePaths c s i.command
      let schemas := withImports c.files importDepth (templates.flatMap (schemaFilesOf c))
      (config ++ optionPaths i.command ++ templates ++ schemas).eraseDups

/-- Environment variables from the text in which each ends with a zero character. -/
def variablesOf (text : String) : Dict String :=
  Dict.ofList ((text.split (· = '\x00')).toList.filterMap fun entry =>
    let cs := entry.toString.toList
    match cs.dropWhile (· ≠ '=') with
    | _ :: value => some (String.ofList (cs.takeWhile (· ≠ '=')), String.ofList value)
    | [] => none)

end ItemComposition.CommandLine

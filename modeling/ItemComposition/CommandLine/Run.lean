import ItemComposition.CommandLine.Arguments
import ItemComposition.Config.Load
import ItemComposition.Repository
import ItemComposition.Text.Bytes

/-!
# Running a command

What a command prints and the code that it ends with, as a function of its arguments and of what
it finds around it: files, environment variables and the time.

## Main definitions

- `CommandError`: why a command fails, with its text and the texts of its causes
- `run`: the outcome of a command line
-/

namespace ItemComposition.CommandLine

/-- What a command finds around it. The time is in seconds since 1970. -/
structure Circumstances where
  files : FileTree
  environment : Dict String
  time : Int

/-- What a command prints, and the code that it ends with. -/
structure Outcome where
  code : Nat
  output : String
  complaint : String
  deriving DecidableEq, Repr

/-- Why the value of an option is no object. -/
inductive ObjectFault where
  | file (path : String) (fault : FileFault)
  | malformed
  | notObject (v : Json)

/-- Why a command fails. -/
inductive CommandError where
  | config (cause : ConfigError)
  | badObject (choice : String) (fault : ObjectFault)
  | storage (cause : StorageError)
  | cache (cause : CacheError)
  | templateNotFound (id : String)
  | file (path : String) (fault : FileFault)
  | stream (cause : StreamError)

/-- The texts of a fault, from the outermost in. -/
def ObjectFault.texts : ObjectFault → List String
  | file path fault => ["read " ++ path, fault.message]
  | malformed => [detail]
  | notObject v => ["expected a JSON object, got " ++ v.compact]

/-- The texts of an error, from the outermost in. -/
def CommandError.texts : CommandError → List String
  | config cause => [cause.message]
  | badObject choice fault => ("invalid --" ++ choice) :: fault.texts
  | storage cause => cause.message :: cause.causes
  | cache cause => [cause.message]
  | templateNotFound id => ["Template not found: " ++ id]
  | file path fault => ["read " ++ path, fault.message]
  | stream cause => cause.texts

/-- The report of an error: its text, and below it those of its causes. -/
def CommandError.report (e : CommandError) : String :=
  let causes : List String := match e.texts.tail with
    | [] => []
    | [cause] => ["", "Caused by:", "    " ++ cause]
    | causes => ["", "Caused by:"] ++ causes.zipIdx.map fun (cause, n) =>
        "    " ++ Decimal.intText n ++ ": " ++ cause
  String.intercalate "\n" (("Error: " ++ e.texts.headD "") :: causes) ++ "\n"

/-! ## Settings and objects -/

/-- The text of a file. -/
def textAt (files : FileTree) (path : String) : Except FileFault String :=
  match files.read path with
  | .error fault => .error fault
  | .ok bytes =>
    match Text.decode? bytes with
    | some text => .ok text
    | none => .error .notText

/-- The paths where a configuration file of a name is looked for, in order. -/
def configPaths (path : String) : List String := [path, path ++ ".toml"]

/-- Loads the settings. A configuration file that is named must be there. -/
def settings (c : Circumstances) (config : Option String) : Except ConfigError Settings :=
  match config with
  | none => Settings.load none c.environment
  | some path =>
    match (configPaths path).findSome? fun p => (textAt c.files p).toOption with
    | none => .error .load
    | some text => Settings.load (some text) c.environment

/-- The object that the value of an option stands for: written out, or in a file after an at
sign. -/
def objectOf (files : FileTree) (value : String) : Except ObjectFault Json :=
  let text : Except ObjectFault String :=
    match value.toList with
    | '@' :: path => (textAt files (String.ofList path)).mapError (.file (String.ofList path))
    | _ => .ok value
  match text with
  | .error fault => .error fault
  | .ok text =>
    -- the text must be an object, not just any value
    match Json.read? text with
    | none => .error .malformed
    | some (.obj members) => .ok (.obj members)
    | some v => .error (.notObject v)

/-! ## Commands -/

/-- The engine of a command. -/
def engine (c : Circumstances) (s : Settings) : Engine Endpoint :=
  Engine.ofServices ⟨c.environment, fun path => (c.files.read path).toOption⟩ s.retry.policy

/-- Renders an item: loads all templates, and composes the item with the one that is asked for. -/
def render (c : Circumstances) (s : Settings) (directory id : String) (item context : Json) :
    Except CommandError String :=
  let engine := engine c s
  let workspace : Workspace Endpoint := ⟨c.files, .empty⟩
  let clock : Cache.Clock := ⟨0, c.time * TimeUnit.second.nanos⟩
  match Repository.make s.cache.options [(engine.localStorage directory).storage] workspace clock with
  | .error e => .error (.storage e)
  | .ok (source, cache) =>
    match cache.start source with
    | (.error e, _) => .error (.cache e)
    | (.ok (), cache) =>
      match (cache.get source id).1 with
      | none => .error (.templateNotFound id)
      | some instructions =>
        let (members, _) := Engine.compose cache.place.surroundings.registry Engine.offline none
          c.time ⟨item, context, c.environment⟩ instructions (⟨0, ()⟩ : Engine.Scene Unit)
        .ok ((Json.obj members).pretty ++ "\n")

/-- Checks a template file and tells what is in it. -/
def validate (c : Circumstances) (s : Settings) (path : String) : Except CommandError String :=
  match c.files.read path with
  | .error fault => .error (.file path fault)
  | .ok bytes =>
    match (engine c s).parse bytes ⟨c.files, .empty⟩ with
    | (.error e, _) => .error (.stream e)
    | (.ok instructions, workspace) =>
      let views := (instructions.filter Instruction.isView).length
      .ok (path ++ ": " ++ Decimal.intText views ++ " view(s), "
        ++ Decimal.intText (instructions.length - views) ++ " template(s), providers: ["
        ++ String.intercalate ", " workspace.registry.names ++ "]\n")

/-- Runs a command. -/
def execute (c : Circumstances) (i : Invocation) : Except CommandError String := do
  let s ← (settings c i.config).mapError .config
  match i.command with
  | .render templates template item context =>
    let item ← (objectOf c.files item).mapError (.badObject "item")
    let context ← match context with
      | some value => (objectOf c.files value).mapError (.badObject "context")
      | none => .ok .emptyObject
    render c s (templates.getD s.templateDir) template item context
  | .validate file => validate c s file

/-- The outcome of a command line. -/
def run (c : Circumstances) (arguments : List String) : Outcome :=
  match Invocation.parse arguments with
  | .error (.help text) => ⟨0, text, ""⟩
  | .error .version => ⟨0, Stop.complaint .version ++ "\n", ""⟩
  | .error .missingCommand => ⟨2, "", Stop.complaint .missingCommand⟩
  | .error s => ⟨2, "", "error: " ++ s.complaint ++ "\n\nFor more information, try '--help'.\n"⟩
  | .ok i =>
    match execute c i with
    | .ok text => ⟨0, text, ""⟩
    | .error e => ⟨1, "", e.report⟩

end ItemComposition.CommandLine

/-!
# Arguments of the command line

The command line has two commands, each with options of its own and the option for a configuration
file, which may stand before the command or after it. Arguments are read from left to right, and
the first thing that ends the reading decides: a request for help or for the version, or an
argument that does not fit.

## Main definitions

- `Level`: a command, or the command line itself, with what it accepts and how it is described
- `Invocation.parse`: the command that arguments ask for, or why there is none
-/

namespace ItemComposition.CommandLine

/-- An option with a value. -/
structure Choice where
  long : String
  short : Option Char
  /-- The name of the value. -/
  value : String
  about : String
  required : Bool
  /-- Whether the value is a path, which must not be empty. -/
  isPath : Bool

/-- A command, or the command line as a whole. -/
structure Level where
  /-- How it is called. -/
  name : String
  about : String
  choices : List Choice
  /-- The name of the file that it takes. -/
  file : Option String
  /-- The commands below it, with their descriptions. -/
  commands : List (String × String)
  hasVersion : Bool

/-- The name of the program. -/
def programName : String := "item-composer"

/-- The version of the program. -/
def programVersion : String := "0.1.0"

/-- The option for a configuration file. -/
def configChoice : Choice :=
  ⟨"config", some 'c', "CONFIG", "Configuration file (TOML)", false, true⟩

/-- The command that renders an item. -/
def renderLevel : Level where
  name := programName ++ " render"
  about := "Render one item through a template"
  choices := [
    configChoice,
    ⟨"templates", none, "TEMPLATES", "Template directory (overrides storage.template_dir)", false,
      true⟩,
    ⟨"template", none, "TEMPLATE", "Template id (file stem)", true, false⟩,
    ⟨"item", none, "ITEM", "Item as a JSON object, or @path to read it from a file", true, false⟩,
    ⟨"context", none, "CONTEXT", "Request context as a JSON object, or @path", false, false⟩]
  file := none
  commands := []
  hasVersion := false

/-- The command that checks a template file. -/
def validateLevel : Level where
  name := programName ++ " validate"
  about := "Parse a template file and report what it contains"
  choices := [configChoice]
  file := some "FILE"
  commands := []
  hasVersion := false

/-- The command line itself. -/
def topLevel : Level where
  name := programName
  about := "Compose JSON item views from declarative templates"
  choices := [configChoice]
  file := none
  commands := [
    ("render", renderLevel.about), ("validate", validateLevel.about),
    ("help", "Print this message or the help of the given subcommand(s)")]
  hasVersion := true

/-! ## Help -/

/-- Lines of two columns. -/
def columns (rows : List (String × String)) : List String :=
  let width := (rows.map fun r => r.1.length).foldl max 0
  rows.map fun r =>
    "  " ++ r.1 ++ String.ofList (List.replicate (width - r.1.length) ' ') ++ "  " ++ r.2

/-- An option as it is listed. -/
def Choice.title (c : Choice) : String :=
  (match c.short with
    | some s => "-" ++ String.singleton s ++ ", "
    | none => "    ") ++ "--" ++ c.long ++ " <" ++ c.value ++ ">"

/-- How a command is called. -/
def Level.usage (l : Level) : String :=
  let required := (l.choices.filter (·.required)).map fun c => "--" ++ c.long ++ " <" ++ c.value ++ ">"
  let file := l.file.toList.map fun f => "<" ++ f ++ ">"
  let command := if l.commands.isEmpty then [] else ["<COMMAND>"]
  "Usage: " ++ String.intercalate " " ([l.name, "[OPTIONS]"] ++ required ++ file ++ command)

/-- A titled section of a help text. -/
def helpSection (title : String) (rows : List (String × String)) : List String :=
  if rows.isEmpty then [] else ["", title ++ ":"] ++ columns rows

/-- The help text of a command. -/
def Level.help (l : Level) : String :=
  let options := l.choices.map (fun c => (c.title, c.about)) ++ [("-h, --help", "Print help")] ++
    (if l.hasVersion then [("-V, --version", "Print version")] else [])
  let lines := [l.about, "", l.usage]
    ++ helpSection "Commands" l.commands
    ++ helpSection "Arguments" (l.file.toList.map fun f => ("<" ++ f ++ ">", ""))
    ++ helpSection "Options" options
  String.intercalate "\n" lines ++ "\n"

/-- The help text of the command that prints help texts. -/
def helpOfHelp : String :=
  String.intercalate "\n" (["Print this message or the help of the given subcommand(s)", "",
    "Usage: " ++ programName ++ " help [COMMAND]..."]
    ++ helpSection "Arguments" [("[COMMAND]...", "Print help for the subcommand(s)")]) ++ "\n"

/-! ## Reading -/

/-- What ends the reading of arguments early. -/
inductive Stop where
  | help (text : String)
  | version
  | unexpected (argument : String)
  | unknownCommand (name : String)
  | missingValue (choice : String)
  | repeated (choice : String)
  | emptyPath (name : String)
  | unwantedValue (flag : String)
  | missingArguments (names : List String)
  | missingCommand
  deriving DecidableEq, Repr

/-- The values given for options, by their long names, and the file. -/
structure Given where
  values : List (String × String)
  file : Option String
  deriving DecidableEq, Repr

/-- The value given for an option. -/
def Given.value? (g : Given) (long : String) : Option String :=
  (g.values.find? (·.1 = long)).map Prod.snd

/-- Takes in the value of an option, which may be given once. -/
def Given.add (g : Given) (c : Choice) (value : String) : Except Stop Given :=
  if (g.value? c.long).isSome then .error (.repeated c.long)
  else if c.isPath && value = "" then .error (.emptyPath c.long)
  else .ok { g with values := g.values ++ [(c.long, value)] }

/-- Takes in a file. -/
def Given.addFile (g : Given) (l : Level) (path : String) : Except Stop Given :=
  match l.file, g.file with
  | some name, none => if path = "" then .error (.emptyPath name) else .ok { g with file := some path }
  | _, _ => .error (.unexpected path)

/-- What an argument is. -/
inductive Shape where
  /-- Two dashes: no options follow. -/
  | endOfOptions
  /-- A long option, with the value after its equals sign. -/
  | long (name : String) (attached : Option String)
  /-- Short options in one argument. -/
  | short (letters : List Char)
  | word
  deriving DecidableEq, Repr

/-- What an argument is. A single dash is a word. -/
def Shape.of (argument : String) : Shape :=
  match argument.toList with
  -- two hyphens alone end the options, one hyphen alone is a word
  | ['-', '-'] => .endOfOptions
  | '-' :: '-' :: rest =>
    match rest.dropWhile (· ≠ '=') with
    | _ :: value => .long (String.ofList (rest.takeWhile (· ≠ '='))) (some (String.ofList value))
    | [] => .long (String.ofList rest) none
  | ['-'] => .word
  | '-' :: letters => .short letters
  | _ => .word

/-- What is left of the arguments at a word, or at the end. -/
inductive Remainder where
  | finished
  /-- A word, and what follows it. -/
  | word (w : String) (rest : List String)
  /-- What follows two dashes. -/
  | plain (rest : List String)
  deriving DecidableEq, Repr

/-- What an option calls for. -/
inductive Demand where
  | stop (s : Stop)
  /-- A value is at hand. -/
  | given (c : Choice) (value : String)
  /-- The next argument is the value. -/
  | next (c : Choice)

/-- What a long option calls for. -/
def Level.long (l : Level) (name : String) (attached : Option String) : Demand :=
  match l.choices.find? (·.long = name), attached with
  | some c, some value => .given c value
  | some c, none => .next c
  | none, attached =>
    -- help and the version are choices that take no value, and the declared ones come before them
    if name = "help" || (name = "version" && l.hasVersion) then
      match attached with
      | some _ => .stop (.unwantedValue name)
      | none => .stop (if name = "help" then .help l.help else .version)
    else .stop (.unexpected ("--" ++ name))

/-- What short options call for. The first of them decides. -/
def Level.short (l : Level) (letters : List Char) : Demand :=
  match letters with
  | [] => .stop (.unexpected "-")
  | letter :: rest =>
    match l.choices.find? (·.short = some letter) with
    | some c =>
      match rest with
      | [] => .next c
      -- a value may follow its letter directly, or behind an equals sign
      | '=' :: value => .given c (String.ofList value)
      | value => .given c (String.ofList value)
    | none =>
      if letter = 'h' then .stop (.help l.help)
      else if letter = 'V' && l.hasVersion then .stop .version
      else .stop (.unexpected ("-" ++ String.singleton letter))

/-- Does what an option calls for, and tells how many of the next arguments that takes. -/
def Demand.meet (d : Demand) (g : Given) (rest : List String) : Except Stop (Given × Nat) :=
  match d with
  | .stop s => .error s
  | .given c value => (g.add c value).map (·, 0)
  | .next c =>
    match rest with
    | [] => .error (.missingValue c.long)
    | value :: _ =>
      -- a value that looks like an option is not taken for one
      if Shape.of value = .word then (g.add c value).map (·, 1)
      else .error (.missingValue c.long)

/-- Reads options up to the first word. -/
def Level.scan (l : Level) (g : Given) (arguments : List String) :
    Except Stop (Given × Remainder) :=
  match arguments with
  | [] => .ok (g, .finished)
  | argument :: rest =>
    let go (demand : Demand) : Except Stop (Given × Remainder) :=
      match demand.meet g rest with
      | .error s => .error s
      | .ok (g, used) => l.scan g (rest.drop used)
    match Shape.of argument with
    | .endOfOptions => .ok (g, .plain rest)
    | .word => .ok (g, .word argument rest)
    | .long name attached => go (l.long name attached)
    | .short letters => go (l.short letters)
termination_by arguments.length
decreasing_by all_goals simp only [List.length_drop, List.length_cons]; omega

/-- Takes in words without looking at dashes. -/
def Level.takePlain (l : Level) (g : Given) : List String → Except Stop Given
  | [] => .ok g
  | path :: rest =>
    match g.addFile l path with
    | .error s => .error s
    | .ok g => l.takePlain g rest

/-- Reads all arguments of a command; at most one of `words` words is followed by more. -/
def Level.readUpTo (l : Level) : Nat → Given → List String → Except Stop Given
  | 0, g, _ => .ok g
  | words + 1, g, arguments =>
    match l.scan g arguments with
    | .error s => .error s
    | .ok (g, .finished) => .ok g
    | .ok (g, .plain rest) => l.takePlain g rest
    | .ok (g, .word w rest) =>
      match g.addFile l w with
      | .error s => .error s
      | .ok g => l.readUpTo words g rest

/-- Reads all arguments of a command, and checks that nothing is missing. -/
def Level.read (l : Level) (arguments : List String) : Except Stop Given :=
  match l.readUpTo (arguments.length + 1) ⟨[], none⟩ arguments with
  | .error s => .error s
  | .ok g =>
    let absent := (l.choices.filter fun c => c.required && (g.value? c.long).isNone).map (·.long)
    let files := l.file.toList.filter fun _ => g.file.isNone
    if absent.isEmpty && files.isEmpty then .ok g else .error (.missingArguments (absent ++ files))

/-- A command with its arguments. -/
inductive Command where
  | render (templates : Option String) (template item : String) (context : Option String)
  | validate (file : String)
  deriving DecidableEq, Repr

/-- A command, and the configuration file that it is given. -/
structure Invocation where
  config : Option String
  command : Command
  deriving DecidableEq, Repr

/-- The help text that a path of command names asks for. -/
def helpFor : List String → Stop
  | [] => .help topLevel.help
  | ["render"] => .help renderLevel.help
  | ["validate"] => .help validateLevel.help
  | ["help"] => .help helpOfHelp
  | name :: rest =>
    if ["render", "validate", "help"].contains name then .unknownCommand (rest.headD name)
    else .unknownCommand name

/-- The invocation that a command and its arguments stand for. -/
def Invocation.ofCommand (top : Given) (name : String) (arguments : List String) :
    Except Stop Invocation :=
  if name = "render" then
    match renderLevel.read arguments with
    | .error s => .error s
    | .ok g =>
      .ok {
        config := (g.value? "config").orElse fun _ => top.value? "config"
        command := .render (g.value? "templates") ((g.value? "template").getD "")
          ((g.value? "item").getD "") (g.value? "context") }
  else if name = "validate" then
    match validateLevel.read arguments with
    | .error s => .error s
    | .ok g =>
      .ok {
        config := (g.value? "config").orElse fun _ => top.value? "config"
        command := .validate (g.file.getD "") }
  -- every level knows this command, which may be followed by the name of another one
  else if name = "help" then .error (helpFor arguments)
  else .error (.unknownCommand name)

/-- The command that arguments ask for. -/
def Invocation.parse (arguments : List String) : Except Stop Invocation :=
  match topLevel.scan ⟨[], none⟩ arguments with
  | .error s => .error s
  | .ok (_, .finished) => .error .missingCommand
  | .ok (_, .plain rest) =>
    .error (match rest with
      | [] => .missingCommand
      | w :: _ => .unexpected w)
  | .ok (g, .word w rest) => Invocation.ofCommand g w rest

/-- What is told about arguments that do not fit. -/
def Stop.complaint : Stop → String
  | .help text => text
  | .version => programName ++ " " ++ programVersion
  | .unexpected argument => "unexpected argument '" ++ argument ++ "' found"
  | .unknownCommand name => "unrecognized subcommand '" ++ name ++ "'"
  | .missingValue choice => "a value is required for '--" ++ choice ++ "' but none was supplied"
  | .repeated choice => "the argument '--" ++ choice ++ "' cannot be used multiple times"
  | .emptyPath name => "a value is required for '" ++ name ++ "' but none was supplied"
  | .unwantedValue flag => "unexpected value for '--" ++ flag ++ "' found; no more were expected"
  | .missingArguments names =>
    "the following required arguments were not provided: " ++ String.intercalate ", " names
  | .missingCommand => topLevel.help

end ItemComposition.CommandLine

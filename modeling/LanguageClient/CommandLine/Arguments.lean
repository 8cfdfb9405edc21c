import LanguageClient.Config.Load
/-!
The arguments of the command line. Options may stand before and after the name of the command, and
variables of the environment stand in for options that are not given. The arguments are read from
the left, and the first that asks for the version or for help, or makes no sense, decides. The
value of an option is looked at when the next argument that is not a value comes up, at the latest
at the end.
-/
namespace LanguageClient.CommandLine

inductive Command where
  | config
  | capabilities
  | symbols (file : String)
  deriving DecidableEq, Repr

structure Arguments where
  config : Option String
  logLevel : String
  logJson : Bool
  command : Command
  deriving DecidableEq, Repr

/-- Why no command is run. -/
inductive Stop where
  | usage
  | version (program : String)
  | help (program : String)
  deriving DecidableEq, Repr

def programName : String := "lspmux"

def logLevelVariable : String := "LSPMUX_LOG"

def logJsonVariable : String := "LSPMUX_LOG_JSON"

def defaultLogLevel : String := "warn"

/-- What takes a value. -/
inductive Slot where
  | config
  | logLevel
  | file
  deriving DecidableEq, Repr

/-- What has been given at one level: before the name of the command, or after it. -/
structure Given where
  config : Option String
  logLevel : Option String
  logJson : Bool
  file : Option String
  /-- A slot whose value has not been looked at; the value may still be missing. -/
  pending : Option (Slot × Option String)
  deriving DecidableEq, Repr

namespace Given

def nothing : Given := ⟨none, none, false, none, none⟩

/-- A path is never empty. -/
def path (already : Option String) (value : String) : Except Stop (Option String) :=
  if already.isSome || value.isEmpty then .error .usage else .ok (some value)

/-- Looks at the value that is pending. Nothing is given twice at one level. -/
def resolve (g : Given) : Except Stop Given :=
  match g.pending with
  | none => .ok g
  | some (_, none) => .error .usage
  | some (.config, some v) =>
    (path g.config v).map fun config => { g with config, pending := none }
  | some (.file, some v) => (path g.file v).map fun file => { g with file, pending := none }
  | some (.logLevel, some v) =>
    if g.logLevel.isSome then .error .usage
    else .ok { g with logLevel := some v, pending := none }

/-- A slot opens, with a value that came along or with none. -/
def expect (slot : Slot) (value : Option String) (g : Given) : Except Stop Given :=
  g.resolve.bind fun g =>
  let g := { g with pending := some (slot, value) }
  if value.isSome then g.resolve else .ok g

/-- An option waits for the next argument. -/
def waits (g : Given) : Bool :=
  match g.pending with
  | some (_, none) => true
  | _ => false

/-- The argument that an option waits for. -/
def fill (value : String) (g : Given) : Given :=
  { g with pending := g.pending.map (fun p => (p.1, some value)) }

/-- Ends the reading once what is pending has been looked at. -/
def halt (stop : Stop) (g : Given) : Except Stop Given := g.resolve.bind fun _ => .error stop

def setLogJson (g : Given) : Except Stop Given :=
  g.resolve.bind fun g => if g.logJson then .error .usage else .ok { g with logJson := true }

/-- An option by its long name, with what follows an equals sign. -/
def long (program : String) (name : String) (value : Option String) (g : Given) :
    Except Stop Given :=
  match name, value with
  | "config", v => g.expect .config v
  | "log-level", v => g.expect .logLevel v
  | "log-json", none => g.setLogJson
  | "version", none => g.halt (.version program)
  | "help", none => g.halt (.help program)
  | _, _ => .error .usage

/-- An option by its letter, with what follows the letter. -/
def short (program : String) (letters : List Char) (g : Given) : Except Stop Given :=
  let value : List Char → Option String
    | [] => none
    | '=' :: cs => some (String.ofList cs)
    | cs => some (String.ofList cs)
  match letters with
  | 'c' :: cs => g.expect .config (value cs)
  | 'l' :: cs => g.expect .logLevel (value cs)
  | 'V' :: _ => g.halt (.version program)
  | 'h' :: _ => g.halt (.help program)
  | _ => .error .usage

/-- A file to look into. -/
def positional (value : String) (g : Given) : Except Stop Given :=
  g.resolve.map fun g => { g with pending := some (.file, some value) }

end Given

/-- What an argument looks like. -/
inductive Form where
  | long (name : String) (value : Option String)
  | short (letters : List Char)
  /-- Two dashes: no options follow. -/
  | dashes
  | word
  deriving DecidableEq, Repr

def Form.ofArgument (argument : String) : Form :=
  match argument.toList with
  | ['-'] => .word
  | ['-', '-'] => .dashes
  | '-' :: '-' :: cs =>
    .long (String.ofList (cs.takeWhile (· != '=')))
      (match cs.dropWhile (· != '=') with
      | [] => none
      | _ :: value => some (String.ofList value))
  | '-' :: cs => .short cs
  | _ => .word

def commandNames : List String := ["config", "capabilities", "symbols"]

/-- Only `symbols` takes a file, and only one. -/
def acceptWord (command : String) (value : String) (g : Given) : Except Stop Given :=
  let more := command == "symbols" && g.file.isNone &&
    (match g.pending with
    | some (.file, _) => false
    | _ => true)
  if more then g.positional value else .error .usage

/-- Reads what follows the name of a command; once `literal`, every argument is a word. -/
def readTail (command : String) (literal : Bool) : List String → Given → Except Stop Given
  | [], g => g.resolve
  | argument :: rest, g =>
    let program := programName ++ "-" ++ command
    match literal, Form.ofArgument argument with
    | false, .dashes => readTail command true rest g
    | false, .long name value => (g.long program name value).bind (readTail command false rest)
    | false, .short letters => (g.short program letters).bind (readTail command false rest)
    | false, .word =>
      if g.waits then readTail command false rest (g.fill argument)
      else (acceptWord command argument g).bind (readTail command false rest)
    | true, _ => (acceptWord command argument g).bind (readTail command true rest)

abbrev Environment := List (String × String)

/-- A variable counts at every level that does not have the option it stands for, and has to make
sense there. -/
def checkEnvironment (environment : Environment) (g : Given) : Except Stop Unit :=
  let badPath := g.config.isNone && environment.lookup Config.pathVariable == some ""
  let badFlag := !g.logJson &&
    (environment.lookup logJsonVariable).any (fun v => v != "true" && v != "false")
  if badPath || badFlag then .error .usage else .ok ()

def commandOf (name : String) (file : Option String) : Except Stop Command :=
  match name, file with
  | "config", _ => .ok .config
  | "capabilities", _ => .ok .capabilities
  | "symbols", some file => .ok (.symbols file)
  | _, _ => .error .usage

/-- What the two levels and the environment come to. -/
def combine (environment : Environment) (outer inner : Given) (command : Command) : Arguments :=
  { config := (inner.config.or outer.config).or (environment.lookup Config.pathVariable)
    logLevel := ((inner.logLevel.or outer.logLevel).or
      (environment.lookup logLevelVariable)).getD defaultLogLevel
    logJson := inner.logJson || outer.logJson || environment.lookup logJsonVariable == some "true"
    command }

/-- Help on a command, or on help itself. -/
def readHelp (names : List String) : Stop :=
  match names with
  | [] => .help programName
  | [name] =>
    if name == "help" || commandNames.contains name then .help (programName ++ "-" ++ name)
    else .usage
  | _ => .usage

/-- The rest of a command line, from the name of a command on. -/
def readCommand (environment : Environment) (name : String) (rest : List String) (outer : Given) :
    Except Stop Arguments := do
  let inner ← readTail name false rest Given.nothing
  checkEnvironment environment inner
  let command ← commandOf name inner.file
  let outer ← outer.resolve
  checkEnvironment environment outer
  return combine environment outer inner command

/-- Reads arguments up to the name of a command and from there on. -/
def readHead (environment : Environment) : List String → Given → Except Stop Arguments
  | [], _ => .error .usage
  | argument :: rest, g =>
    match Form.ofArgument argument with
    | .dashes => .error .usage
    | .long name value => (g.long programName name value).bind (readHead environment rest)
    | .short letters => (g.short programName letters).bind (readHead environment rest)
    | .word =>
      if g.waits then readHead environment rest (g.fill argument)
      else if argument == "help" then .error (readHelp rest)
      else if commandNames.contains argument then readCommand environment argument rest g
      else .error .usage

def read (environment : Environment) (arguments : List String) : Except Stop Arguments :=
  readHead environment arguments Given.nothing

end LanguageClient.CommandLine

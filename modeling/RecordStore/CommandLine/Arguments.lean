import RecordStore.Output.Format
import RecordStore.Text.Basic

/-!
# Arguments of the command line

The arguments are options and then, unless the session is interactive, a command with arguments of
its own. Options come in two sorts:

  * a *switch* has no value: `-v` may be repeated, `-i` may not;
  * a *setting* has one, and is given once: `--format json`, `--format=json`, `-f json`, `-fjson`
    or `-f=json`.

Letters after a single dash can be written together, and the first setting among them takes the
rest as its value. A value that stands by itself does not begin with a dash, unless it is one; `--`
ends the options. A path is never empty. The argument of `query` may begin with a dash, as most
queries do.

Arguments that do not fit are refused as a whole, and so are those that ask for help.
-/

namespace RecordStore.CommandLine

open RecordStore.Output RecordStore.Text

/-- What is to be done with the datastore. -/
inductive Command where
  | importFiles (paths : List String)
  | query (text : String)
  | get (key : String)
  | delete (key : String)
  deriving Repr, DecidableEq

/-- The options given. -/
structure Options where
  interactive : Bool
  format : Option Format
  config : Option String
  datastore : Option String
  schema : Option String
  logFile : Option String
  client : Option String
  secret : Option String
  deriving Repr, DecidableEq

/-- No options. -/
def Options.none : Options := ⟨false, .none, .none, .none, .none, .none, .none, .none⟩

/-- Why nothing is done. -/
inductive Refusal where
  | help
  | misuse
  deriving Repr, DecidableEq

/-! ## Options -/

/-- An option without a value. -/
inductive Switch where
  | verbose
  | interactive
  | help
  deriving Repr, DecidableEq

/-- An option with a value. -/
inductive Setting where
  | format
  | config
  | datastore
  | schema
  | logFile
  | client
  | secret
  deriving Repr, DecidableEq

/-- The switch with a name. -/
def Switch.ofName? : String → Option Switch
  | "verbose" => some .verbose
  | "interactive" => some .interactive
  | "help" => some .help
  | _ => none

/-- The switch with a letter. -/
def Switch.ofLetter? : Char → Option Switch
  | 'v' => some .verbose
  | 'i' => some .interactive
  | 'h' => some .help
  | _ => none

/-- The setting with a name. -/
def Setting.ofName? : String → Option Setting
  | "format" => some .format
  | "config" => some .config
  | "datastore" => some .datastore
  | "schema" => some .schema
  | "log-file" => some .logFile
  | "client-id" => some .client
  | "secret" => some .secret
  | _ => none

/-- The setting with a letter. -/
def Setting.ofLetter? : Char → Option Setting
  | 'f' => some .format
  | 'c' => some .config
  | 'd' => some .datastore
  | _ => none

namespace Options

/-- The options with a switch turned on. -/
def turnOn (o : Options) : Switch → Except Refusal Options
  | .verbose => .ok o
  | .interactive => if o.interactive then .error .misuse else .ok { o with interactive := true }
  | .help => .error .help

/-- A value that is given for the first time and is acceptable. -/
def once {α : Type} (present value : Option α) : Except Refusal (Option α) :=
  match present, value with
  | .none, some a => .ok (some a)
  | _, _ => .error .misuse

/-- A path, which is not empty. -/
def path? (value : String) : Option String := if value.isEmpty then .none else some value

/-- The options with the value of a setting. -/
def give (o : Options) (setting : Setting) (value : String) : Except Refusal Options := do
  match setting with
  | .format => return { o with format := ← once o.format (Format.ofKeyword? value) }
  | .config => return { o with config := ← once o.config (path? value) }
  | .datastore => return { o with datastore := ← once o.datastore (path? value) }
  | .schema => return { o with schema := ← once o.schema (path? value) }
  | .logFile => return { o with logFile := ← once o.logFile (path? value) }
  | .client => return { o with client := ← once o.client (some value) }
  | .secret => return { o with secret := ← once o.secret (some value) }

/-- The options after the word behind two dashes, and the setting whose value is still to come. -/
def readName (o : Options) (word : List Char) : Except Refusal (Options × Option Setting) := do
  let (name, value) := match splitAtFirst? (· == '=') word with
    | some (name, value) => (String.ofList name, some (String.ofList value))
    | .none => (String.ofList word, .none)
  match Setting.ofName? name, Switch.ofName? name, value with
  | some setting, _, some value => return (← o.give setting value, .none)
  | some setting, _, .none => return (o, some setting)
  | .none, some switch, .none => return (← o.turnOn switch, .none)
  | _, _, _ => throw .misuse

/-- The options after the letters behind one dash, and the setting whose value is still to come. -/
def readLetters (o : Options) : List Char → Except Refusal (Options × Option Setting)
  | [] => .ok (o, .none)
  | letter :: letters => do
    match Setting.ofLetter? letter, Switch.ofLetter? letter with
    | some setting, _ =>
      match letters with
      | [] => return (o, some setting)
      | '=' :: value => return (← o.give setting (String.ofList value), .none)
      | value => return (← o.give setting (String.ofList value), .none)
    | .none, some switch => (← o.turnOn switch).readLetters letters
    | .none, .none => throw .misuse

end Options

/-! ## Commands -/

/-- Whether an argument is written as an option. -/
def isOption (arg : String) : Bool :=
  match arg.toList with
  | '-' :: _ :: _ => true
  | _ => false

/-- The refusal of an option where a command takes none but the one that asks for help. -/
def refusalOf (arg : String) : Refusal :=
  match arg.toList with
  | '-' :: 'h' :: _ => .help
  | _ => if arg = "--help" then .help else .misuse

/-- The arguments of a command that takes no options. There are at most `most` of them, if there is
    a bound, and each has to fit; of several faults the first one counts. -/
def readWords (fits : String → Bool) (most : Option Nat) :
    List String → Except Refusal (List String)
  | [] => .ok []
  | arg :: rest =>
    if arg = "--" then
      if rest.all fits && most.all (rest.length ≤ ·) then .ok rest else .error .misuse
    else if isOption arg then .error (refusalOf arg)
    else if fits arg && most != some 0 then do
      return arg :: (← readWords fits (most.map (· - 1)) rest)
    else .error .misuse

/-- The only argument of a command. -/
def readWord (args : List String) : Except Refusal String := do
  match ← readWords (fun _ => true) (some 1) args with
  | [word] => return word
  | _ => throw .misuse

/-- The paths of a command, of which there is at least one. -/
def readPaths (args : List String) : Except Refusal (List String) := do
  let paths ← readWords (fun path => !path.isEmpty) none args
  if paths.isEmpty then throw .misuse
  return paths

/-- Whether an argument asks for help also where one may begin with a dash. -/
def asksForHelp (arg : String) : Bool :=
  arg == "--help" || (isOption arg && (arg.toList.drop 1).all (· == 'h'))

/-- The only argument of `query`. -/
def readQuery : List String → Except Refusal String
  | [] => .error .misuse
  | arg :: rest =>
    if arg = "--" then readWord (arg :: rest)
    else if asksForHelp arg then .error .help
    else if "--help=".toList.isPrefixOf arg.toList then .error .misuse
    else do
      let _ ← readWords (fun _ => true) (some 0) rest
      return arg

/-- The names of the commands. -/
def commandNames : List String := ["import", "query", "get", "delete", "help"]

/-- A command, from its name and its arguments. -/
def readCommand (name : String) (args : List String) : Except Refusal Command := do
  match name with
  | "import" => return .importFiles (← readPaths args)
  | "query" => return .query (← readQuery args)
  | "get" => return .get (← readWord args)
  | "delete" => return .delete (← readWord args)
  | "help" => throw (if args.length ≤ 1 && args.all commandNames.contains then .help else .misuse)
  | _ => throw .misuse

/-! ## All arguments -/

/-- Reads arguments, the first of which is the value of the setting `owed`, if there is one. -/
def readFrom (o : Options) (owed : Option Setting) :
    List String → Except Refusal (Options × Option Command)
  | [] => if owed.isSome then .error .misuse else .ok (o, none)
  | arg :: rest =>
    match owed with
    | some setting =>
      if isOption arg then .error .misuse
      else do readFrom (← o.give setting arg) none rest
    | none =>
      if arg = "--" then if rest.isEmpty then .ok (o, none) else .error .misuse
      else
        match arg.toList with
        | '-' :: '-' :: word => do
          let (o, owed) ← o.readName word
          readFrom o owed rest
        | '-' :: letter :: letters => do
          let (o, owed) ← o.readLetters (letter :: letters)
          readFrom o owed rest
        | _ => do return (o, some (← readCommand arg rest))

/-- The options and the command that the arguments ask for. -/
def readArguments (args : List String) : Except Refusal (Options × Option Command) :=
  readFrom Options.none none args

end RecordStore.CommandLine

import Equijoin.Run
import Equijoin.TaskFile

/-! # The command line

* `Arguments`: the task file and the options that arguments name.
* `Command.parse`: what arguments ask for. They are read from the left, and the first that cannot be
  taken decides; what asks for help or the version ends the reading.
* `Arguments.plan`, `Arguments.perform`: the job that arguments ask for, and its run.
-/

set_option autoImplicit false

namespace Equijoin

/-- An option with a value. -/
inductive Setting where
  | shardSizeLimit
  | shards
  | threads
  | maxInFlight
  | workDir
  deriving DecidableEq, Repr

namespace Setting

def all : List Setting := [shardSizeLimit, shards, threads, maxInFlight, workDir]

/-- The name of a setting, after two hyphens. -/
def name : Setting → String
  | shardSizeLimit => "shard-size-limit"
  | shards => "shards"
  | threads => "threads"
  | maxInFlight => "max-in-flight"
  | workDir => "work-dir"

def ofName? (s : String) : Option Setting :=
  all.find? (·.name == s)

end Setting

/-- The task file and the options. -/
structure Arguments where
  taskFile : Option String
  shardSizeLimit : Option Nat
  shards : Option Nat
  threads : Option Nat
  maxInFlight : Option Nat
  workDir : Option String
  deriving DecidableEq, Repr

/-- Why arguments cannot be taken. -/
inductive Misuse where
  | noTaskFile
  | unexpected (argument : String)
  | noValue (setting : Setting)
  | repeated (setting : Setting)
  | invalid (setting : Setting) (value : String)
  | emptyPath
  deriving DecidableEq, Repr

/-- What arguments ask for. -/
inductive Command where
  | join (arguments : Arguments)
  | help
  | version
  | misuse (fault : Misuse)
  deriving DecidableEq, Repr

/-! ## Reading -/

/-- The number of decimal digits, if it fits into a word; a plus may stand before them. -/
def readWord? (s : String) : Option Nat :=
  let digits :=
    match s.toList with
    | '+' :: ds => ds
    | ds => ds
  if digits.isEmpty then none
  else (Whole.readDigits 0xFFFFFFFFFFFFFFFF .tooLarge 0 digits).toOption

namespace Arguments

def none : Arguments := ⟨.none, .none, .none, .none, .none, .none⟩

def has (a : Arguments) : Setting → Bool
  | .shardSizeLimit => a.shardSizeLimit.isSome
  | .shards => a.shards.isSome
  | .threads => a.threads.isSome
  | .maxInFlight => a.maxInFlight.isSome
  | .workDir => a.workDir.isSome

def put? (a : Arguments) (setting : Setting) (value : String) : Option Arguments :=
  match setting with
  | .shardSizeLimit => (readWord? value).map fun n => { a with shardSizeLimit := some n }
  | .shards => (readWord? value).map fun n => { a with shards := some n }
  | .threads => (readWord? value).map fun n => { a with threads := some n }
  | .maxInFlight => (readWord? value).map fun n => { a with maxInFlight := some n }
  | .workDir => if value = "" then .none else some { a with workDir := some value }

/-- The arguments with a value for a setting that has none yet. -/
def give (a : Arguments) (setting : Setting) (value : String) : Except Misuse Arguments :=
  if a.has setting then .error (.repeated setting)
  else
    match a.put? setting value with
    | some a => .ok a
    | .none => .error (.invalid setting value)

/-- The arguments with the task file, if there is none yet. -/
def giveTaskFile (a : Arguments) (path : String) : Except Misuse Arguments :=
  if a.taskFile.isSome then .error (.unexpected path)
  else if path = "" then .error .emptyPath
  else .ok { a with taskFile := some path }

end Arguments

/-- One argument by its form. -/
inductive Token where
  /-- Two hyphens alone. -/
  | separator
  /-- A setting, and its value if that is part of the argument. -/
  | setting (s : Setting) (value : Option String)
  | help
  | version
  | unknown
  /-- No option. -/
  | plain
  deriving DecidableEq, Repr

namespace Token

/-- The name and the value of an argument that starts with two hyphens. -/
def ofLong (cs : List Char) : Token :=
  let name := String.ofList (cs.takeWhile (· != '='))
  let value : Option String :=
    match cs.dropWhile (· != '=') with
    | [] => none
    | _ :: v => some (String.ofList v)
  match Setting.ofName? name, value with
  | some s, value => .setting s value
  | none, none => if name = "help" then .help else if name = "version" then .version else .unknown
  | none, some _ => .unknown

/-- An argument that starts with one hyphen; an equals sign may stand before the value. -/
def ofShort : List Char → Token
  | 'h' :: _ => .help
  | 'V' :: _ => .version
  | ['t'] => .setting .threads none
  | 't' :: '=' :: value => .setting .threads (some (String.ofList value))
  | 't' :: value => .setting .threads (some (String.ofList value))
  | _ => .unknown

/-- An argument by its form. A hyphen alone is no option. -/
def ofArgument (argument : String) : Token :=
  match argument.toList with
  | ['-', '-'] => .separator
  | '-' :: '-' :: cs => ofLong cs
  | ['-'] => .plain
  | '-' :: cs => ofShort cs
  | _ => .plain

end Token

namespace Command

/-- What arguments ask for that have been read in full. -/
def ofArguments (a : Arguments) : Command :=
  if a.taskFile.isSome then .join a else .misuse .noTaskFile

/-- Arguments behind a separator: there are no more options. -/
def parsePlain (a : Arguments) : List String → Command
  | [] => ofArguments a
  | argument :: rest =>
    match a.giveTaskFile argument with
    | .error fault => .misuse fault
    | .ok a => parsePlain a rest

def parseFrom (a : Arguments) : List String → Command
  | [] => ofArguments a
  | argument :: rest =>
    match Token.ofArgument argument with
    | .separator => parsePlain a rest
    | .help => .help
    | .version => .version
    | .unknown => .misuse (.unexpected argument)
    | .plain =>
      match a.giveTaskFile argument with
      | .error fault => .misuse fault
      | .ok a => parseFrom a rest
    | .setting s (some value) =>
      match a.give s value with
      | .error fault => .misuse fault
      | .ok a => parseFrom a rest
    | .setting s none =>
      match rest with
      | [] => .misuse (.noValue s)
      | value :: rest =>
        if Token.ofArgument value = .plain then
          match a.give s value with
          | .error fault => .misuse fault
          | .ok a => parseFrom a rest
        else .misuse (.noValue s)

def parse (arguments : List String) : Command :=
  parseFrom .none arguments

end Command

/-! ## Performing -/

namespace Arguments

/-- The options that arguments name, on a machine with some processors. As many shards may be joined
at a time as there are threads, unless another number is named. -/
def options (a : Arguments) (processors : Nat) : Options :=
  let standard := Options.standard processors
  { shardSizeLimit := a.shardSizeLimit.getD standard.shardSizeLimit
    shardCount := a.shards
    threads := a.threads <|> standard.threads
    maxInFlight := a.maxInFlight.getD (a.threads.getD standard.maxInFlight)
    workDir := a.workDir }

def job (a : Arguments) (files : FileTree) : Outcome Job := do
  (← TaskFile.load files (a.taskFile.getD "")).toJob

def plan (a : Arguments) (processors : Nat) (files : FileTree) : Outcome (Job × Options) := do
  let job ← a.job files
  (a.options processors).check
  .ok (job, a.options processors)

def perform (a : Arguments) (processors : Nat) (elapsed : Duration) : Phase Report := do
  let files ← Phase.files
  let (job, options) ← Phase.ofOutcome (a.plan processors files)
  job.run options Schedules.sequential elapsed

end Arguments

/-! ## Texts -/

namespace Command

def versionText : String := "partitioned-join 0.1.0\n"

def usageText : String := "Usage: partitioned-join [OPTIONS] <CONFIG>\n"

def helpText : String :=
  "Hash-partitioned multi-way equi-join of delimited-text files\n\n" ++ usageText ++
  "\nArguments:\n" ++
  "  <CONFIG>  Task configuration (JSON)\n" ++
  "\nOptions:\n" ++
  "      --shard-size-limit <SHARD_SIZE_LIMIT>  " ++
    "Target shard size in bytes (default: 200 MiB)\n" ++
  "      --shards <SHARDS>                      Use exactly this many shards\n" ++
  "  -t, --threads <THREADS>                    " ++
    "Worker threads (default: available parallelism)\n" ++
  "      --max-in-flight <MAX_IN_FLIGHT>        " ++
    "Maximum shards joined at the same time (default: thread count)\n" ++
  "      --work-dir <WORK_DIR>                  " ++
    "Directory for scratch files (default: system temp dir)\n" ++
  "  -h, --help                                 Print help\n" ++
  "  -V, --version                              Print version\n"

def errorLine (message : String) : String := "error: " ++ message

end Command

def Misuse.message : Misuse → String
  | noTaskFile => "the following required arguments were not provided:\n  <CONFIG>"
  | unexpected argument => s!"unexpected argument '{argument}' found"
  | noValue setting => s!"a value is required for '--{setting.name}' but none was supplied"
  | repeated setting => s!"the argument '--{setting.name}' cannot be used multiple times"
  | invalid setting value => s!"invalid value '{value}' for '--{setting.name}'"
  | emptyPath => "a value is required for '<CONFIG>' but none was supplied"

end Equijoin

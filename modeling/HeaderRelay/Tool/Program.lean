import HeaderRelay.Tool.Job
import HeaderRelay.Tool.CommandLine
import HeaderRelay.Tool.Settings

/-!
# The program

* `configure` — the level of detail and the codec that options and settings amount to;
* `Outcome` — what a run leaves behind: an exit code, printed lines, an error, events;
* `run` — the program, from its arguments to its outcome.
-/

namespace HeaderRelay
namespace Tool

variable {m : Type → Type} [Monad m]

/-! ## Configuration -/

structure Config where
  level : Level
  codec : Codec

inductive ConfigError where
  | file (error : FileError)
  /-- The settings file is no TOML or names no policy. -/
  | malformed (path : String)
  deriving DecidableEq, Repr

def ConfigError.message : ConfigError → String
  | file error => (ToolError.file error).message
  | malformed path => s!"invalid config file {Text.quoted path}"

/-- Warnings and worse, and one level more for every time detail was asked for. -/
def levelOf (detail : Nat) : Level :=
  match detail with
  | 0 => .warn
  | 1 => .info
  | 2 => .debug
  | _ => .trace

/-- The settings file in the user's directory. -/
def settingsIn (home : String) : String :=
  if home = "" ∨ home.endsWith "/" then home ++ ".dashcrust.toml"
  else home ++ "/.dashcrust.toml"

/-- The settings at `path`, which has to be well formed if it is there at all. -/
def readSettings (files : FileAccess m) (path : String) : ExceptT ConfigError m Settings := do
  if ← liftM (files.has path) then
    let content ← liftM (files.read path)
    match content.bind textOf with
    | .error e => throw (.file e)
    | .ok text =>
        match Settings.parse text with
        | some settings => return settings
        | none => throw (.malformed path)
  else
    return {}

/-- What options and settings amount to. The settings are looked up where the options say, or
else in the directory `home`. -/
def configure (files : FileAccess m) (home : Option String) (options : Options) :
    ExceptT ConfigError m Config := do
  let settings ← match options.config <|> home.map settingsIn with
    | some path => readSettings files path
    | none => pure {}
  let policy := if options.strict then .strict else settings.policy
  return { level := levelOf options.detail, codec := { policy } }

/-! ## Texts -/

def programName : String := "dashcrust-admin"

def programVersion : String := "0.1.0"

def Topic.name : Topic → String
  | encode => "encode"
  | decode => "decode"

/-- The program's usage, in two lines. -/
def usage : List String :=
  ["USAGE:", s!"    {programName} [FLAGS] [OPTIONS] [SUBCOMMAND]"]

/-- Commands have no version of their own. -/
def versionLine : Option Topic → String
  | none => s!"{programName} {programVersion}"
  | some topic => s!"{programName}-{topic.name} "

def helpLines : Option Topic → List String
  | none =>
      [versionLine none, "Encodes and inspects DIP-0025 headers2 payloads", ""] ++ usage ++
        ["",
          "FLAGS:",
          "    -d, --debug      Turn debugging information on",
          "    -h, --help       Prints help information",
          "        --strict     Reject records that reference unknown version table entries",
          "    -V, --version    Prints version information",
          "",
          "OPTIONS:",
          "    -c, --config <config>    " ++
            "Location of the config file, default: $HOME/.dashcrust.toml",
          "",
          "SUBCOMMANDS:",
          "    decode    Print the headers in a headers2 payload",
          "    encode    Compress a file of raw 80 byte headers into a headers2 payload",
          "    help      Prints this message or the help of the given subcommand(s)"]
  | some .encode =>
      [versionLine (some .encode),
        "Compress a file of raw 80 byte headers into a headers2 payload",
        "",
        "USAGE:",
        s!"    {programName} encode <INPUT> <OUTPUT>",
        "",
        "FLAGS:",
        "    -h, --help       Prints help information",
        "    -V, --version    Prints version information",
        "",
        "ARGS:",
        "    <INPUT>     Concatenated raw headers",
        "    <OUTPUT>    Where to write the headers2 payload"]
  | some .decode =>
      [versionLine (some .decode),
        "Print the headers in a headers2 payload",
        "",
        "USAGE:",
        s!"    {programName} decode [FLAGS] <INPUT>",
        "",
        "FLAGS:",
        "    -h, --help       Prints help information",
        "        --hex        INPUT holds hex text instead of raw bytes",
        "    -V, --version    Prints version information",
        "",
        "ARGS:",
        "    <INPUT>    headers2 payload"]

/-! ## Runs -/

/-- Why a run ended early. -/
inductive Failure where
  | usage (error : UsageError)
  | config (error : ConfigError)
  | tool (error : ToolError)
  deriving DecidableEq, Repr

def Failure.message : Failure → String
  | usage error => error.message
  | config error => error.message
  | tool error => error.message

/-- Settings that cannot be used are told from everything else that goes wrong. -/
def Failure.exitCode : Failure → Nat
  | usage _ => 1
  | config _ => 2
  | tool _ => 1

structure Outcome where
  /-- Lines for the standard output. -/
  output : List String := []
  failure : Option Failure := none
  /-- Events of the library and of the jobs. -/
  events : List Event := []
  /-- The level down to which events are to be shown. -/
  level : Level := .warn

def Outcome.exitCode (outcome : Outcome) : Nat :=
  (outcome.failure.map Failure.exitCode).getD 0

/-- Carries a command out. Its last line is printed only if all went well. -/
def perform (files : FileAccess m) (codec : Codec) : Command → Job m Unit
  | .encode input output => do
      let size ← compressFile files codec input output
      Job.print s!"wrote {size} bytes to {output}"
  | .decode input hex => do
      let count ← printFile files codec input hex
      Job.print s!"{count} headers"

/-- The program without a command, or with one. Lines printed before a failure stay printed. -/
def runCommand (files : FileAccess m) (config : Config) : Option Command → m Outcome
  | none => return { output := usage, level := config.level }
  | some command => do
      let (result, trail) ← (perform files config.codec command).trace
      let failure := match result with
        | .ok () => none
        | .error e => some (.tool e)
      return {
        output := trail.printed.toList
        failure
        events := trail.events.toList
        level := config.level }

/-- The program. `home` is the user's directory, if there is one. -/
def run (files : FileAccess m) (home : Option String) (arguments : List String) : m Outcome := do
  match CommandLine.parse arguments with
  | .error e => return { failure := some (.usage e) }
  | .ok (.help topic) => return { output := helpLines topic }
  | .ok (.version topic) => return { output := [versionLine topic] }
  | .ok (.run options command) =>
      match ← (configure files home options).run with
      | .error e => return { failure := some (.config e) }
      | .ok config => runCommand files config command

end Tool
end HeaderRelay

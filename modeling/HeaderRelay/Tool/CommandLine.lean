/-!
# The command line

* `Options`, `Command` — what a command line may ask for;
* `Invocation` — a request for help or the version, or a run;
* `UsageError` — why a command line is refused;
* `CommandLine.parse` — the arguments after the program's name.

Options of the program stand before the command, those of a command after it. A long option's
value follows an equals sign or is the next argument; short options may be run together, and the
first one that takes a value takes the rest.
-/

namespace HeaderRelay
namespace Tool

/-! ## What can be asked for -/

structure Options where
  /-- How often more detail was asked for. -/
  detail : Nat := 0
  /-- Where the settings are. -/
  config : Option String := none
  /-- The strict policy, whatever the settings say. -/
  strict : Bool := false
  deriving DecidableEq, Repr

inductive Command where
  /-- Compress raw headers. -/
  | encode (input output : String)
  /-- List the headers of a payload. -/
  | decode (input : String) (hex : Bool)
  deriving DecidableEq, Repr

/-- The commands by name only. -/
inductive Topic where
  | encode
  | decode
  deriving DecidableEq, Repr

def Topic.ofName? : String → Option Topic
  | "encode" => some encode
  | "decode" => some decode
  | _ => none

inductive Invocation where
  /-- The help of a command, or of the whole program. -/
  | help (topic : Option Topic)
  | version (topic : Option Topic)
  | run (options : Options) (command : Option Command)
  deriving DecidableEq, Repr

inductive UsageError where
  | unknownArgument (argument : String)
  | unknownCommand (name : String)
  | missingArguments
  | missingValue (option : String)
  | repeated (option : String)
  deriving DecidableEq, Repr

def UsageError.message : UsageError → String
  | unknownArgument argument =>
      s!"error: Found argument '{argument}' which wasn't expected, or isn't valid in this context"
  | unknownCommand name => s!"error: The subcommand '{name}' wasn't recognized"
  | missingArguments => "error: The following required arguments were not provided"
  | missingValue option =>
      s!"error: The argument '{option}' requires a value but none was supplied"
  | repeated option =>
      s!"error: The argument '{option}' was provided more than once, but cannot be used " ++
        "multiple times"

namespace CommandLine

/-! ## Forms of arguments -/

/-- A single dash is a plain argument, like anything that does not begin with one. -/
inductive Form where
  /-- Two dashes alone: only plain arguments follow. -/
  | terminator
  /-- A long option with the text after its first equals sign. -/
  | long (name : String) (value : Option String)
  /-- Short options run together. -/
  | short (letters : List Char)
  | plain
  deriving DecidableEq, Repr

/-- Surplus dashes of an option do not count. -/
def Form.of (argument : String) : Form :=
  match argument.toList with
  | ['-', '-'] => .terminator
  | '-' :: '-' :: rest =>
      let body := rest.dropWhile (· == '-')
      if body.contains '=' then
        .long (String.ofList (body.takeWhile (· != '=')))
          (some (String.ofList ((body.dropWhile (· != '=')).drop 1)))
      else
        .long (String.ofList body) none
  | ['-'] => .plain
  | '-' :: rest => .short rest
  | _ => .plain

/-- Equals signs before a value do not count. -/
def valueText (text : List Char) : String :=
  String.ofList (text.dropWhile (· == '='))

/-! ## Program options -/

/-- Program options read so far. -/
structure Seen where
  detail : Nat := 0
  strict : Nat := 0
  /-- How often the settings option was given. -/
  configs : Nat := 0
  /-- The values given to it. -/
  values : List String := []
  /-- The settings option came last and still waits for its value. -/
  waiting : Bool := false

namespace Seen

def more (seen : Seen) : Seen :=
  { seen with detail := seen.detail + 1, waiting := false }

def stricter (seen : Seen) : Seen :=
  { seen with strict := seen.strict + 1, waiting := false }

/-- The settings option, with its value or without one so far. -/
def configure (seen : Seen) (value : Option String) : Seen :=
  { seen with
    configs := seen.configs + 1
    values := seen.values ++ value.toList
    waiting := value.isNone }

/-- The value that the settings option was waiting for. -/
def supply (seen : Seen) (value : String) : Seen :=
  { seen with values := seen.values ++ [value], waiting := false }

/-- The options, unless one lacks its value or is repeated. Only detail may be repeated. -/
def options (seen : Seen) : Except UsageError Options :=
  if seen.configs > 0 ∧ seen.values = [] then .error (.missingValue "--config <config>")
  else if seen.configs > 1 then .error (.repeated "--config <config>")
  else if seen.strict > 1 then .error (.repeated "--strict")
  else
    .ok { detail := seen.detail, config := seen.values.head?, strict := seen.strict > 0 }

end Seen

/-- What one argument leads to: more arguments, or an end right there. -/
inductive Progress (α : Type) where
  | more (state : α)
  | done (invocation : Invocation)

/-- Short options of the program, one letter at a time. -/
def programLetters (seen : Seen) : List Char → Except UsageError (Progress Seen)
  | [] => .ok (.more seen)
  | 'd' :: rest => programLetters seen.more rest
  | 'c' :: rest =>
      .ok (.more (seen.configure (if rest = [] then none else some (valueText rest))))
  | 'h' :: _ => .ok (.done (.help none))
  | 'V' :: _ => .ok (.done (.version none))
  | letter :: _ => .error (.unknownArgument (String.ofList ['-', letter]))

/-- A long option of the program. Options that take no value ignore one. -/
def programLong (seen : Seen) (name : String) (value : Option String) :
    Except UsageError (Progress Seen) :=
  if name = "config" then
    .ok (.more (seen.configure (value.map fun text => valueText text.toList)))
  else if name = "debug" then .ok (.more seen.more)
  else if name = "strict" then .ok (.more seen.stricter)
  else if name = "help" then .ok (.done (.help none))
  else if name = "version" then .ok (.done (.version none))
  else .error (.unknownArgument ("--" ++ name))

/-! ## Commands -/

/-- A command's arguments read so far. -/
structure Given where
  topic : Topic
  plain : List String := []
  hex : Nat := 0

namespace Given

/-- Every command takes a fixed number of plain arguments. -/
def capacity (given : Given) : Nat :=
  match given.topic with
  | .encode => 2
  | .decode => 1

def addPlain (given : Given) (argument : String) : Except UsageError Given :=
  if given.plain.length < given.capacity then
    .ok { given with plain := given.plain ++ [argument] }
  else
    .error (.unknownArgument argument)

/-- A long option of a command. -/
def addLong (given : Given) (name : String) : Except UsageError (Progress Given) :=
  if name = "hex" ∧ given.topic = .decode then
    .ok (.more { given with hex := given.hex + 1 })
  else if name = "help" then .ok (.done (.help (some given.topic)))
  else if name = "version" then .ok (.done (.version (some given.topic)))
  else .error (.unknownArgument ("--" ++ name))

/-- Commands have no short options of their own. -/
def addLetters (given : Given) : List Char → Except UsageError (Progress Given)
  | [] => .ok (.more given)
  | 'h' :: _ => .ok (.done (.help (some given.topic)))
  | 'V' :: _ => .ok (.done (.version (some given.topic)))
  | letter :: _ => .error (.unknownArgument (String.ofList ['-', letter]))

def command (given : Given) : Except UsageError Command :=
  if given.hex > 1 then
    .error (.repeated "--hex")
  else
    match given.topic, given.plain with
    | .encode, [input, output] => .ok (.encode input output)
    | .decode, [input] => .ok (.decode input (given.hex > 0))
    | _, _ => .error .missingArguments

end Given

/-- What came of a command's arguments. -/
inductive Parsed where
  | command (command : Command)
  | done (invocation : Invocation)

/-- The arguments after a command's name; once `optionsEnded`, all of them are plain. -/
def parseCommand (given : Given) (optionsEnded : Bool) :
    List String → Except UsageError Parsed
  | [] => do return .command (← given.command)
  | argument :: rest =>
      if optionsEnded then do
        parseCommand (← given.addPlain argument) true rest
      else
        match Form.of argument with
        | .terminator => parseCommand given true rest
        | .plain => do parseCommand (← given.addPlain argument) false rest
        | .long name _ => do
            match ← given.addLong name with
            | .more given => parseCommand given false rest
            | .done invocation => return .done invocation
        | .short letters => do
            match ← given.addLetters letters with
            | .more given => parseCommand given false rest
            | .done invocation => return .done invocation

/-- The arguments after the word `help`: the name of a command, the word itself, or nothing. -/
def parseHelp : List String → Except UsageError Invocation
  | [] => .ok (.help none)
  | [name] =>
      match Topic.ofName? name with
      | some topic => .ok (.help (some topic))
      | none => if name = "help" then .ok (.help none) else .error (.unknownCommand name)
  | _ :: name :: _ => .error (.unknownCommand name)

/-! ## Whole command lines -/

/-- The end of a command line on which no command stands. -/
def finish (seen : Seen) : Except UsageError Invocation := do
  return .run (← seen.options) none

/-- A command with what follows it. The program's own options are settled after it. -/
def parseTopic (seen : Seen) (topic : Topic) (rest : List String) :
    Except UsageError Invocation := do
  match ← parseCommand { topic } false rest with
  | .done invocation => return invocation
  | .command command => return .run (← seen.options) (some command)

/-- Arguments of the program, up to a command. -/
def parseFrom (seen : Seen) : List String → Except UsageError Invocation
  | [] => finish seen
  | argument :: rest =>
      match Form.of argument with
      | .terminator =>
          match rest with
          | [] => finish seen
          | next :: _ => .error (.unknownArgument next)
      | .long name value => do
          match ← programLong seen name value with
          | .more seen => parseFrom seen rest
          | .done invocation => return invocation
      | .short letters => do
          match ← programLetters { seen with waiting := false } letters with
          | .more seen => parseFrom seen rest
          | .done invocation => return invocation
      | .plain =>
          if seen.waiting then
            parseFrom (seen.supply argument) rest
          else
            match Topic.ofName? argument with
            | some topic => parseTopic seen topic rest
            | none =>
                if argument = "help" then parseHelp rest
                else .error (.unknownArgument argument)

/-- The arguments after the program's name. -/
def parse (arguments : List String) : Except UsageError Invocation :=
  parseFrom {} arguments

end CommandLine
end Tool
end HeaderRelay

/-!
The command line. Options can stand in front of the command and behind it, and each of the
two places takes an option once.
-/

namespace GrammarInspector

/-- What to check and how to show what is found. -/
structure CheckRequest where
  paths : List String
  /-- Whether to write one JSON object for each message. -/
  json : Bool
  color : Bool
  library : Option String
deriving DecidableEq, Repr

inductive HelpTopic where
  | program
  | serve
  | check
deriving DecidableEq, Repr

inductive Command where
  | serve (library : Option String)
  | check (request : CheckRequest)
  | help (topic : HelpTopic)
  | version
deriving DecidableEq, Repr

inductive UsageFault where
  | unexpectedArgument (argument : String)
  | unknownCommand (name : String)
  | missingValue (option : String)
  | unexpectedValue (option value : String)
  | repeatedOption (option : String)
  | missingFiles
deriving DecidableEq, Repr

namespace UsageFault

def message : UsageFault → String
  | .unexpectedArgument argument => s!"unexpected argument '{argument}' found"
  | .unknownCommand name => s!"unrecognized subcommand '{name}'"
  | .missingValue option => s!"a value is required for '{option}' but none was supplied"
  | .unexpectedValue option value =>
    s!"unexpected value '{value}' for '{option}' found; no more were expected"
  | .repeatedOption option => s!"the argument '{option}' cannot be used multiple times"
  | .missingFiles => "the following required arguments were not provided:\n  <FILES>..."

end UsageFault

/-! ## Options -/

inductive Switch where
  | logLevel
  | stdio
  | json
  | noColor
  | library
  | help
  | version
deriving DecidableEq, Repr

namespace Switch

def name : Switch → String
  | .logLevel => "--log-level"
  | .stdio => "--stdio"
  | .json => "--json"
  | .noColor => "--no-color"
  | .library => "--lib"
  | .help => "--help"
  | .version => "--version"

/-- The form of one letter. -/
def letter? : Switch → Option Char
  | .help => some 'h'
  | .version => some 'V'
  | _ => none

def takesValue : Switch → Bool
  | .logLevel | .library => true
  | _ => false

/-- Whether the value of an option may be empty. The name of a directory may not. -/
def allowsEmpty : Switch → Bool
  | .logLevel => true
  | _ => false

end Switch

namespace HelpTopic

def switches : HelpTopic → List Switch
  | .program => [.logLevel, .stdio, .help, .version]
  | .serve => [.library, .logLevel, .stdio, .help]
  | .check => [.json, .noColor, .library, .logLevel, .stdio, .help]

def command? : String → Option HelpTopic
  | "lsp" => some .serve
  | "check" => some .check
  | _ => none

end HelpTopic

/-! ## Arguments -/

structure Given where
  switches : List Switch
  library : Option String
  operands : List String

namespace Given

def nothing : Given := ⟨[], none, []⟩

/-- Takes an option with the value that belongs to it, which is empty for an option
without one. -/
def take (given : Given) (switch : Switch) (value : String) : Given :=
  { given with
    switches := switch :: given.switches
    library := if switch = .library then some value else given.library }

end Given

/-- Where the reading of arguments ends. -/
inductive Arguments where
  | fault (fault : UsageFault)
  /-- An option asks for something else than a command. -/
  | command (command : Command)
  /-- Everything fits; `rest` starts with the name of a command. -/
  | given (given : Given) (rest : List String)

namespace Arguments

/-- Whether an argument can be the value of an option. One that starts with a dash is an
option of its own. -/
def isValue (argument : String) : Bool :=
  argument = "-" || argument.toList.head? ≠ some '-'

/-- A long option and the value behind its equals sign. -/
def cutLong (argument : String) : String × Option String :=
  let characters := argument.toList
  match characters.dropWhile (· ≠ '=') with
  | [] => (argument, none)
  | _ :: value => (String.ofList (characters.takeWhile (· ≠ '=')),
      some (String.ofList value))

def isLong (argument : String) : Bool := "--".toList.isPrefixOf argument.toList

/-- What an option does that ends the reading. -/
def ending? (topic : HelpTopic) : Switch → Option Command
  | .help => some (.help topic)
  | .version => some .version
  | _ => none

/-- Takes an option, or says why it cannot be taken. -/
def taken (topic : HelpTopic) (given : Given) (switch : Switch) (value : String)
    (goOn : Given → Arguments) : Arguments :=
  match ending? topic switch with
  | some asked => .command asked
  | none =>
    if given.switches.contains switch then .fault (.repeatedOption switch.name)
    else if switch.takesValue && value.isEmpty && !switch.allowsEmpty then
      .fault (.missingValue switch.name)
    else goOn (given.take switch value)

/-- Reads arguments from left to right. The program itself has no operands: its first one
is the name of a command. -/
def read (topic : HelpTopic) (given : Given) : List String → Arguments
  | [] => .given given []
  | argument :: rest =>
    if argument = "--" then
      match topic, rest with
      | .check, operands =>
        if operands.contains "" then .fault (.missingValue "<FILES>...")
        else .given { given with operands := given.operands ++ operands } []
      | _, [] => .given given []
      | _, operand :: _ => .fault (.unexpectedArgument operand)
    else if isLong argument then
      let (name, value?) := cutLong argument
      match topic.switches.find? (·.name = name), value? with
      | none, _ => .fault (.unexpectedArgument name)
      | some switch, some value =>
        if switch.takesValue then taken topic given switch value (read topic · rest)
        else .fault (.unexpectedValue switch.name value)
      | some switch, none =>
        if switch.takesValue then
          match rest with
          | [] => .fault (.missingValue switch.name)
          | value :: rest =>
            if isValue value then taken topic given switch value (read topic · rest)
            else .fault (.missingValue switch.name)
        else taken topic given switch "" (read topic · rest)
    else if !isValue argument then
      match topic.switches.find? (·.letter? = argument.toList[1]?) with
      | some switch => taken topic given switch "" (read topic · rest)
      | none => .fault (.unexpectedArgument argument)
    else
      match topic with
      | .program => .given given (argument :: rest)
      | .serve => .fault (.unexpectedArgument argument)
      | .check =>
        if argument.isEmpty then .fault (.missingValue "<FILES>...")
        else read topic { given with operands := given.operands ++ [argument] } rest

end Arguments

namespace Command

/-- The command that the options and operands behind its name describe. -/
def ofGiven (topic : HelpTopic) (given : Given) : Except UsageFault Command :=
  match topic with
  | .program => .ok (.serve none)
  | .serve => .ok (.serve given.library)
  | .check =>
    if given.operands.isEmpty then .error .missingFiles
    else
      let json := given.switches.contains .json
      .ok (.check ⟨given.operands, json, !json && !given.switches.contains .noColor,
        given.library⟩)

def ofHelp : List String → Except UsageFault Command
  | [] | ["help"] => .ok (.help .program)
  | [name] =>
    match HelpTopic.command? name with
    | some topic => .ok (.help topic)
    | none => .error (.unknownCommand name)
  | _ :: name :: _ => .error (.unknownCommand name)

/-- The command that arguments name. Without arguments it is a server. -/
def ofArguments (arguments : List String) : Except UsageFault Command :=
  match Arguments.read .program .nothing arguments with
  | .fault fault => .error fault
  | .command command => .ok command
  | .given given [] => ofGiven .program given
  | .given _ (name :: rest) =>
    if name = "help" then ofHelp rest
    else
      match HelpTopic.command? name with
      | none => .error (.unknownCommand name)
      | some topic =>
        match Arguments.read topic .nothing rest with
        | .fault fault => .error fault
        | .command command => .ok command
        | .given given _ => ofGiven topic given

end Command

end GrammarInspector

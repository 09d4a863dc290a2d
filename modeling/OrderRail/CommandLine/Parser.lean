import OrderRail.CommandLine.Options
import OrderRail.Decimal.Word
import OrderRail.Text.Separated

/-!
# Reading a command line

The words of a command line are read from the left. The value of an option is attached to it after
an equals sign, or is the next word, unless that begins with a dash and is more than a dash. A value
of its own word is examined only when the next known option begins or the words are over, so a word
that does not belong there is reported before a bad value that precedes it. An attached value is
examined at once. Two dashes alone end the options, and as no command takes anything else, every
word after them is one too many.
-/

namespace OrderRail.CommandLine

/-- What help is asked for. -/
inductive Topic where
  | program
  | command (command : Command)
  | help
  deriving DecidableEq, Repr

/-- What is wrong with a command line. -/
inductive Refusal where
  | unknownArgument (word : String)
  | unknownCommand (word : String)
  | unexpectedValue (value option : String)
  | missingValue (option : String)
  | repeated (option : String)
  | invalidValue (value option : String) (reason : Decimal.ReadError)
  deriving DecidableEq, Repr

/-- The text of a refusal. -/
def Refusal.message : Refusal → String
  | .unknownArgument word => "unexpected argument '" ++ word ++ "' found"
  | .unknownCommand word => "unrecognized subcommand '" ++ word ++ "'"
  | .unexpectedValue value option =>
    "unexpected value '" ++ value ++ "' for '" ++ option ++ "' found; no more were expected"
  | .missingValue option =>
    "a value is required for '" ++ option ++ "' but none was supplied"
  | .repeated option => "the argument '" ++ option ++ "' cannot be used multiple times"
  | .invalidValue value option reason =>
    "invalid value '" ++ value ++ "' for '" ++ option ++ "': " ++ reason.message

/-- Why a command line runs nothing. -/
inductive Stop where
  | help (topic : Topic)
  | version
  | refused (refusal : Refusal)
  deriving DecidableEq, Repr

/-- What a command line runs. -/
inductive Task where
  | demo (options : DemoOptions)
  | bench (options : BenchOptions)
  | stress (options : StressOptions)
  deriving DecidableEq, Repr

/-- A word by its form. -/
inductive Form where
  /-- Two dashes alone. -/
  | terminator
  /-- Two dashes and a name, perhaps with an attached value. -/
  | long (name : String) (attached : Option String)
  /-- A dash and letters, of which the first one decides. -/
  | short (letter : Char)
  | plain
  deriving DecidableEq, Repr

/-- What follows the first equals sign, if there is one. -/
def attachedValue : List Char → Option String
  | [] => none
  | c :: rest => if c = '=' then some (String.ofList rest) else attachedValue rest

/-- The form of a word. -/
def Form.ofWord (word : String) : Form :=
  match word.toList with
  | ['-', '-'] => .terminator
  | '-' :: '-' :: rest => .long (String.ofList (rest.takeWhile (· ≠ '='))) (attachedValue rest)
  | '-' :: letter :: _ => .short letter
  | _ => .plain

/-- The numbers given for each option that has been given. -/
abbrev Settings := Name → Option (List UInt64)

/-- No option has been given. -/
def Settings.none : Settings := fun _ => Option.none

/-- The settings with other numbers for an option. -/
def Settings.put (settings : Settings) (name : Name) (numbers : List UInt64) : Settings :=
  fun other => if other = name then some numbers else settings other

/-- The number that a value writes. -/
def readNumber (spec : OptionSpec) (value : String) : Except Stop UInt64 :=
  match Decimal.readWord value with
  | .ok number => .ok number
  | .error reason => .error (.refused (.invalidValue value spec.display reason))

/-- The numbers that the parts of a value write. -/
def readNumbers (spec : OptionSpec) : List String → Except Stop (List UInt64)
  | [] => .ok []
  | value :: values =>
    match readNumber spec value with
    | .error stop => .error stop
    | .ok number => (readNumbers spec values).map (number :: ·)

/-- Examine a value of an option. A single number can be given once; sets are cut at every comma
and add up. -/
def assign (settings : Settings) (spec : OptionSpec) (value : String) : Except Stop Settings :=
  match spec.shape, settings spec.name with
  | .set _, given =>
    (readNumbers spec (Separated.split ',' value)).map fun numbers =>
      settings.put spec.name (given.getD [] ++ numbers)
  | _, some _ => .error (.refused (.repeated spec.display))
  | _, none => (readNumber spec value).map fun number => settings.put spec.name [number]

/-- How far the reading of a command's options has come. -/
structure Progress where
  settings : Settings
  /-- An option whose value is not attached, and the value once it has been met. -/
  pending : Option (OptionSpec × Option String)

/-- Examine the option that is pending. -/
def Progress.resolve (progress : Progress) : Except Stop Settings :=
  match progress.pending with
  | none => .ok progress.settings
  | some (spec, none) => .error (.refused (.missingValue spec.display))
  | some (spec, some value) => assign progress.settings spec value

/-- A known option is met. -/
def Progress.meet (progress : Progress) (spec : OptionSpec) (attached : Option String) :
    Except Stop Progress :=
  match spec.shape, attached with
  | .flag, some value => .error (.refused (.unexpectedValue value spec.display))
  | .flag, none =>
    match progress.resolve with
    | .error stop => .error stop
    | .ok settings =>
      match settings spec.name with
      | some _ => .error (.refused (.repeated spec.display))
      | none => .ok { settings := settings.put spec.name [], pending := none }
  | _, some value =>
    match progress.resolve with
    | .error stop => .error stop
    | .ok settings =>
      (assign settings spec value).map fun settings => { settings, pending := none }
  | _, none => progress.resolve.map fun settings => { settings, pending := some (spec, none) }

/-- Help is asked for after the options so far have been examined. -/
def Progress.help (progress : Progress) (command : Command) : Stop :=
  match progress.resolve with
  | .error stop => stop
  | .ok _ => .help (.command command)

/-- A word that is no option is met: it is the pending value or one word too many. -/
def Progress.meetPlain (progress : Progress) (word : String) : Except Stop Progress :=
  match progress.pending with
  | some (spec, none) => .ok { progress with pending := some (spec, some word) }
  | _ => .error (.refused (.unknownArgument word))

/-- Read one word of a command's options, which is not two dashes alone. -/
def Progress.read (progress : Progress) (command : Command) (word : String) :
    Except Stop Progress :=
  match Form.ofWord word with
  | .long name attached =>
    match command.option? name, attached with
    | some spec, _ => progress.meet spec attached
    | none, some value =>
      if name = "help" then .error (.refused (.unexpectedValue value "--help"))
      else .error (.refused (.unknownArgument ("--" ++ name)))
    | none, none =>
      if name = "help" then .error (progress.help command)
      else .error (.refused (.unknownArgument ("--" ++ name)))
  | .short letter =>
    if letter = 'h' then .error (progress.help command)
    else .error (.refused (.unknownArgument (String.ofList ['-', letter])))
  | _ => progress.meetPlain word

/-- Two dashes alone are met: no word may follow. -/
def Progress.terminate (progress : Progress) : List String → Except Stop Settings
  | [] => progress.resolve
  | extra :: _ => .error (.refused (.unknownArgument extra))

/-- Read the options of a command to the end. -/
def readOptions (command : Command) : Progress → List String → Except Stop Settings
  | progress, [] => progress.resolve
  | progress, word :: words =>
    if Form.ofWord word = .terminator then progress.terminate words
    else
      match progress.read command word with
      | .error stop => .error stop
      | .ok progress => readOptions command progress words

namespace Settings

/-- The number given for an option, or the one that stands for it. -/
def number (settings : Settings) (name : Name) (absent : UInt64) : UInt64 :=
  match settings name with
  | some (number :: _) => number
  | _ => absent

/-- The number given for an option, if it was given. -/
def number? (settings : Settings) (name : Name) : Option UInt64 :=
  (settings name).bind List.head?

/-- The numbers given for an option, or those that stand for it. -/
def numbers (settings : Settings) (name : Name) (absent : List UInt64) : List UInt64 :=
  (settings name).getD absent

/-- Whether an option was given. -/
def given (settings : Settings) (name : Name) : Bool := (settings name).isSome

/-- The options of the demonstration. -/
def demo (settings : Settings) : DemoOptions := { seed := settings.number? .seed }

/-- The options of a benchmark. -/
def bench (settings : Settings) : BenchOptions :=
  let default := BenchOptions.default
  { customers := settings.number .customers default.customers
    ordersPerCustomer := settings.number .ordersPerCustomer default.ordersPerCustomer
    cooks := settings.number .cooks default.cooks
    capacity := settings.number .capacity default.capacity
    workMillis := settings.number .workMillis default.workMillis
    seed := settings.number? .seed
    validate := settings.given .validate }

/-- The options of a stress test. -/
def stress (settings : Settings) : StressOptions :=
  let default := StressOptions.default
  { customers := settings.numbers .customers default.customers
    ordersPerCustomer := settings.numbers .ordersPerCustomer default.ordersPerCustomer
    cooks := settings.numbers .cooks default.cooks
    capacity := settings.numbers .capacity default.capacity
    workMillis := settings.number .workMillis default.workMillis
    seed := settings.number? .seed
    validate := settings.given .validate }

/-- The task of a command with these settings. -/
def task (settings : Settings) : Command → Task
  | .demo => .demo settings.demo
  | .bench => .bench settings.bench
  | .stress => .stress settings.stress

end Settings

/-- The task of a command and the words after it. -/
def readCommand (command : Command) (words : List String) : Except Stop Task :=
  (readOptions command { settings := .none, pending := none } words).map (·.task command)

/-- The topic that the words after the help command name. Commands have no commands of their own,
so a second word names nothing. -/
def helpTopic : List String → Stop
  | [] => .help .program
  | word :: words =>
    let topic : Option Topic :=
      if word = "help" then some .help else (Command.ofWord? word).map .command
    match topic, words with
    | none, _ => .refused (.unknownCommand word)
    | some topic, [] => .help topic
    | some _, extra :: _ => .refused (.unknownCommand extra)

/-- A word after two dashes in front of every command. -/
def afterTerminator (word : String) : Refusal :=
  if word = "help" ∨ (Command.ofWord? word).isSome then .unknownArgument word
  else .unknownCommand word

/-- Read a command line. One without words runs no command, which is left to the caller. -/
def read : List String → Except Stop (Option Task)
  | [] => .ok none
  | word :: words =>
    match Form.ofWord word with
    | .terminator =>
      match words with
      | [] => .ok none
      | extra :: _ => .error (.refused (afterTerminator extra))
    | .long name (some value) =>
      if name = "help" ∨ name = "version" then
        .error (.refused (.unexpectedValue value ("--" ++ name)))
      else .error (.refused (.unknownArgument ("--" ++ name)))
    | .long name none =>
      if name = "help" then .error (.help .program)
      else if name = "version" then .error .version
      else .error (.refused (.unknownArgument ("--" ++ name)))
    | .short letter =>
      if letter = 'h' then .error (.help .program)
      else if letter = 'V' then .error .version
      else .error (.refused (.unknownArgument (String.ofList ['-', letter])))
    | .plain =>
      if word = "help" then .error (helpTopic words)
      else
        match Command.ofWord? word with
        | some command => (readCommand command words).map some
        | none => .error (.refused (.unknownCommand word))

end OrderRail.CommandLine

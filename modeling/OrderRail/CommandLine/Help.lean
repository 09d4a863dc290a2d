import OrderRail.CommandLine.Parser
import OrderRail.Journal

/-!
# Help

A help text says what something is for, how it is called, and what its parts are. Parts are set in
two columns: the left one is as wide as its widest entry, and two blanks follow it even where the
right one is empty.
-/

namespace OrderRail.CommandLine

/-- The version line. -/
def versionLine : String := programName ++ " 0.1.0"

/-- What a command is for. -/
def Command.purpose : Command → String
  | .demo => "Run the restaurant demo (default)"
  | .bench => "Run one configuration and print a CSV row"
  | .stress => "Sweep comma-separated parameter sets and print CSV rows"

/-- What the program is for. -/
def programPurpose : String := "Bounded order queue shared by customers and cooks"

/-- What the help command is for. -/
def helpPurpose : String := "Print this message or the help of the given subcommand(s)"

/-- A text with blanks after it up to a width. -/
def padRight (width : Nat) (text : String) : String :=
  text ++ String.ofList (List.replicate (width - text.length) ' ')

/-- Two columns, two blanks apart. -/
def twoColumns (entries : List (String × String)) : List String :=
  let width := (entries.map (·.1.length)).foldl max 0
  entries.map fun (left, right) => padRight width left ++ "  " ++ right

/-- The explanation of an option: its purpose and the numbers that stand for it. -/
def OptionSpec.explanation (spec : OptionSpec) : String :=
  let absent :=
    if spec.absent.isEmpty then []
    else ["[default: " ++ Separated.join ' ' (spec.absent.map toString) ++ "]"]
  Separated.join ' ' ((if spec.purpose = "" then [] else [spec.purpose]) ++ absent)

/-- The column entry of an option, indented past the place of a letter. -/
def OptionSpec.entry (spec : OptionSpec) : String × String :=
  ("      " ++ spec.display, spec.explanation)

/-- The column entry of the help option. -/
def helpEntry : String × String := ("  -h, --help", "Print help")

/-- The help on the program. -/
def programHelp : List String :=
  [programPurpose, "", "Usage: " ++ programName ++ " [COMMAND]", "", "Commands:"] ++
    twoColumns
      ([Command.demo, .bench, .stress].map (fun command => ("  " ++ command.word, command.purpose))
        ++ [("  help", helpPurpose)]) ++
    ["", "Options:"] ++ twoColumns [helpEntry, ("  -V, --version", "Print version")]

/-- The help on a command. -/
def Command.help (command : Command) : List String :=
  [command.purpose, "", "Usage: " ++ programName ++ " " ++ command.word ++ " [OPTIONS]", "",
    "Options:"] ++ twoColumns (command.options.map (·.entry) ++ [helpEntry])

/-- The help on the help command. -/
def helpHelp : List String :=
  [helpPurpose, "", "Usage: " ++ programName ++ " help [COMMAND]...", "", "Arguments:"] ++
    twoColumns [("  [COMMAND]...", "Print help for the subcommand(s)")]

/-- The lines of the help on a topic. -/
def Topic.lines : Topic → List String
  | .program => programHelp
  | .command about => about.help
  | .help => helpHelp

end OrderRail.CommandLine

import BenchGate.CommandLine.Arguments
import BenchGate.CommandLine.Outcome

/-!
# Usage of the commands

What a command prints when it is asked for help, or when its words cannot be read.
-/

namespace BenchGate

/-- What an option is followed by. -/
def OptionKind.placeholder : OptionKind → String
  | flag => ""
  | path => " <PATH>"
  | number => " <NUMBER>"
  | count => " <COUNT>"

/-- An option as the usage shows it. -/
def OptionSpec.usage (spec : OptionSpec) : String :=
  let letter := match spec.letter with
    | some c => s!"-{c}, "
    | none => ""
  s!"  {letter}--{spec.name}{spec.kind.placeholder}"

/-- The usage of a command. -/
def Command.usage (command : Command) : List Line :=
  plainLine s!"Usage: {command.name} [OPTIONS]" :: blankLine :: plainLine "Options:" ::
    command.options.map fun spec => plainLine spec.usage

/-- Why a command does not run, in words; asking for help is no fault. -/
def UsageStop.fault? : UsageStop → Option String
  | help => none
  | unknownArgument => some "unexpected argument"
  | invalidValue => some "a value is required"
  | badNumber => some "invalid number"
  | conflict => some "options that exclude each other"
  | tooManyValues => some "unexpected value for a flag"
  | missingRequired => some "a required option is missing"

/-- The exit code of a command whose words cannot be read. -/
def Outcome.usageCode : Nat := 2

/-- What happens instead of a run: the usage is printed, and nothing changes. -/
def Command.explain (command : Command) (stop : UsageStop) (files : FileTree) : Outcome :=
  match stop.fault? with
  | none => { Outcome.verdict true files with output := command.usage }
  | some fault =>
    { Outcome.stopped fault files with exitCode := Outcome.usageCode }.afterErrors command.usage

end BenchGate

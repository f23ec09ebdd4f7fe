/-!
# Arguments

The program takes a command and the path of a configuration. Arguments are read from left to right,
and the first that asks for help or cannot be understood decides.

* `Invocation.ofArguments` is what a list of arguments asks for.
-/

namespace TableExport

/-- What a run does. -/
inductive Command
  /-- Writes the tables of all workbooks. -/
  | data
  /-- Writes the code for all schema documents. -/
  | code
  /-- Does both. -/
  | all
  deriving DecidableEq

namespace Command

/-- The command with a name. -/
def ofName? (name : String) : Option Command :=
  if name = "data" then some .data
  else if name = "code" then some .code
  else if name = "all" then some .all
  else none

/-- Whether a command writes tables. -/
def writesData (command : Command) : Bool := command != .code

/-- Whether a command writes code. -/
def writesCode (command : Command) : Bool := command != .data

end Command

/-- What a list of arguments asks for. -/
inductive Invocation
  /-- A run with the configuration at a path. -/
  | run (command : Command) (path : String)
  /-- The usage or the version of the program. -/
  | help
  | misuse
  deriving DecidableEq

namespace Invocation

/-- Whether an argument is an option. A single dash is a path. -/
def isOption (argument : String) : Bool :=
  match argument.toList with
  | '-' :: _ :: _ => true
  | _ => false

/-- Whether an option asks for help. Letters behind the first do not count. -/
def asksHelp (option : String) : Bool :=
  match option.toList with
  | '-' :: 'h' :: _ => true
  | _ => option = "--help"

/-- Whether an option asks for the version. -/
def asksVersion (option : String) : Bool :=
  match option.toList with
  | '-' :: 'V' :: _ => true
  | _ => option = "--version"

/-- Reads the arguments of a command. After two dashes on their own, options are paths. -/
def ofCommand (command : Command) (path : Option String) (literal : Bool) :
    List String → Invocation
  | [] =>
    match path with
    | some path => if path.isEmpty then .misuse else .run command path
    | none => .misuse
  | argument :: rest =>
    if literal || !isOption argument then
      if path.isSome then .misuse else ofCommand command (some argument) literal rest
    else if argument = "--" then ofCommand command path true rest
    else if asksHelp argument && path != some "" then .help
    else .misuse

/-- Reads the names after the command `help`. -/
def ofHelp : List String → Invocation
  | [] => .help
  | [name] => if (Command.ofName? name).isSome || name = "help" then .help else .misuse
  | _ => .misuse

/-- Reads all arguments. -/
def ofArguments : List String → Invocation
  | [] => .misuse
  | first :: rest =>
    if isOption first then if asksHelp first || asksVersion first then .help else .misuse
    else if first = "help" then ofHelp rest
    else
      match Command.ofName? first with
      | some command => ofCommand command none false rest
      | none => .misuse

end Invocation

end TableExport

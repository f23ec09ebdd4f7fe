import TableExport.Batch.Basic
import TableExport.Cli.Arguments

/-!
# The program

* `Invocation.perform` is a run of the program on the files of a workspace.
* `Outcome` is what a caller sees of it besides the files: a status, and lines about an error.
-/

namespace TableExport

/-- How a run of the program ends. -/
structure Outcome where
  status : UInt8
  /-- What is written to the error channel. -/
  errors : List String := []

namespace Outcome

/-- A run without an error. -/
def success : Outcome := ⟨0, []⟩

/-- The lines of a numbered cause. -/
def causeLines (number : Nat) (cause : String) : List String :=
  match cause.splitOn "\n" with
  | [] => []
  | first :: rest => ("    " ++ toString number ++ ": " ++ first) :: rest.map ("       " ++ ·)

/-- A run that fails. The cause is given twice, once for the step and once for the part of the
program that it comes from. -/
def failure (context cause : String) : Outcome :=
  ⟨1, ("Error: " ++ context).splitOn "\n" ++ ["", "Caused by:"] ++ causeLines 0 cause ++
    causeLines 1 cause⟩

/-- A run with arguments that cannot be understood. -/
def misuse : Outcome := ⟨2, ["Usage: table-export <data|code|all> <CONFIG>"]⟩

/-- A run that an error in the day arithmetic ends. -/
def abandoned : Outcome := ⟨101, ["The day arithmetic overflowed"]⟩

end Outcome

namespace Command

/-- The steps of a command. Code is still written when some tables fail; the outcome is that of the
first step that fails. -/
def steps (command : Command) (config : Config) : Batch Outcome := do
  let data ← if command.writesData then some <$> Batch.attempt (Batch.exportData config)
    else pure none
  let code ← if command.writesCode then some <$> Batch.attempt (Batch.exportCode config)
    else pure none
  match data, code with
  | some (.error cause), _ => return .failure "Data export failed" cause.message
  | _, some (.error cause) => return .failure "Code generation failed" cause.message
  | _, _ => return .success

/-- Runs a command with the configuration at a path. -/
def run (command : Command) (workspace : Workspace) (path : String) : Outcome × Workspace :=
  match Config.load workspace path with
  | .error cause => (.failure ("Cannot load '" ++ path ++ "'") cause.message, workspace)
  | .ok config =>
    match (command.steps config).run ⟨workspace, .empty⟩ with
    | (.ok outcome, state) => (outcome, state.workspace)
    | (.error _, state) => (.abandoned, state.workspace)

end Command

/-- Does what an invocation asks for. -/
def Invocation.perform (invocation : Invocation) (workspace : Workspace) : Outcome × Workspace :=
  match invocation with
  | .run command path => command.run workspace path
  | .help => (.success, workspace)
  | .misuse => (.misuse, workspace)

end TableExport

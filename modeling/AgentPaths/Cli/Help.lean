import AgentPaths.Cli.Command

/-!
The help: what the program or a command does, how it is called, and a table of its commands or
options. In a table the descriptions are aligned behind the longest entry.
-/
namespace AgentPaths.Cli

/-- A line of a table: the entry, and what it means. -/
abbrev Row := String × String

/-- The rows of a table, each behind two blanks, the descriptions two blanks behind the widest
entry. -/
def tableLines (rows : List Row) : List String :=
  let width := rows.foldl (fun w r => max w r.1.length) 0
  rows.map fun (entry, meaning) =>
    "  " ++ entry ++ String.ofList (List.replicate (width + 2 - entry.length) ' ') ++ meaning

def OptionSpec.row (o : OptionSpec) : Row :=
  let value := match o.arity with
    | .flag => ""
    | .one => " <" ++ o.placeholder ++ ">"
    | .optional => " [<" ++ o.placeholder ++ ">]"
  let standard := match o.default with
    | none => ""
    | some d => " [default: " ++ d ++ "]"
  ("    --" ++ o.name ++ value, o.help ++ standard)

def helpRow : Row := ("-h, --help", "Print help")

def Topic.lines : Topic → List String
  | .program =>
    ["Cooperative pathfinding through SAT", "", "Usage: cpf <COMMAND>", "", "Commands:"] ++
    tableLines
      [("solve", "Find a schedule of minimal makespan for a problem file"),
        ("verify", "Check a result file against its problem file"),
        ("generate", "Write a random square grid problem"),
        ("help", "Print this message or the help of the given subcommand(s)")] ++
    ["", "Options:"] ++ tableLines [helpRow, ("-V, --version", "Print version")]
  | .solve =>
    ["Find a schedule of minimal makespan for a problem file", "", "Usage: cpf solve [OPTIONS]", "",
      "Options:"] ++ tableLines (solveOptions.map OptionSpec.row ++ [helpRow])
  | .verify =>
    ["Check a result file against its problem file", "",
      "Usage: cpf verify [OPTIONS] --graph <GRAPH> --result <RESULT>", "",
      "Options:"] ++ tableLines (verifyOptions.map OptionSpec.row ++ [helpRow])
  | .generate =>
    ["Write a random square grid problem", "", "Usage: cpf generate [OPTIONS]", "",
      "Options:"] ++ tableLines (generateOptions.map OptionSpec.row ++ [helpRow])
  | .help =>
    ["Print this message or the help of the given subcommand(s)", "",
      "Usage: cpf help [COMMAND]...", "", "Arguments:"] ++
      tableLines [("[COMMAND]...", "Print help for the subcommand(s)")]

def versionLine : String := "cpf 0.1.0"

end AgentPaths.Cli

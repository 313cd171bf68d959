/-! What the program says of itself. -/

namespace ForwardFlow.Help

/-- The name under which the program is run. -/
def program : String := "flowsense-util"

def version (name : String) : String := name ++ " 0.1.0"

def ofLines (lines : List String) : String := "\n".intercalate lines

def heading : List String := [version program, "flowsense utility."]

def general : String :=
  ofLines <| heading ++
    ["",
      "USAGE:",
      "    " ++ program ++ " [FLAGS] <SUBCOMMAND>",
      "",
      "FLAGS:",
      "    -d, --debug      ",
      "    -h, --help       Prints help information",
      "    -V, --version    Prints version information",
      "",
      "SUBCOMMANDS:",
      "    analyze    Run an analysis and print per-block results",
      "    help       Prints this message or the help of the given subcommand(s)",
      "    print      Parse a function body and print it back"]

def print : String :=
  ofLines
    [version (program ++ "-print"),
      "Parse a function body and print it back",
      "",
      "USAGE:",
      "    " ++ program ++ " print <file>",
      "",
      "FLAGS:",
      "    -h, --help       Prints help information",
      "    -V, --version    Prints version information",
      "",
      "ARGS:",
      "    <file>    Function body in text form"]

def analyze : String :=
  ofLines
    [version (program ++ "-analyze"),
      "Run an analysis and print per-block results",
      "",
      "USAGE:",
      "    " ++ program ++ " analyze [FLAGS] [OPTIONS] [files]...",
      "",
      "FLAGS:",
      "    -h, --help       Prints help information",
      "        --trace      Also print the state after every element",
      "    -V, --version    Prints version information",
      "",
      "OPTIONS:",
      "    -a, --analysis <analysis>    Analysis to run: definite-assignment or constants " ++
        "[default: definite-assignment]",
      "        --order <order>          Worklist order: rpo or fifo [default: rpo]",
      "",
      "ARGS:",
      "    <files>...    Function bodies in text form"]

end ForwardFlow.Help

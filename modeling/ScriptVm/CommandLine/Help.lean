import ScriptVm.CommandLine.Arguments

namespace ScriptVm.CommandLine

def lineWidth : Nat := 100

def fill (width : Nat) (text : String) : List String :=
  let lines := (text.splitOn " ").foldl
    (fun (lines : List String) word =>
      match lines with
      | [] => [word]
      | line :: before =>
        if line.length + 1 + word.length ≤ width then (line ++ " " ++ word) :: before
        else word :: line :: before)
    []
  lines.reverse

def blanks (n : Nat) : String := String.ofList (List.replicate n ' ')

structure Entry where
  term : String
  purpose : String
  deriving DecidableEq, Inhabited, Repr

def listing (heading : String) (entries : List Entry) : String :=
  let width := (entries.map fun e => e.term.length).foldl max 0
  let lines := entries.map fun e =>
    "  " ++ e.term ++ blanks (width - e.term.length) ++ "  " ++
      String.intercalate ("\n" ++ blanks (width + 4)) (fill (lineWidth - (width + 4)) e.purpose) ++
        "\n"
  heading ++ ":\n" ++ String.join lines

def Verb.name : Verb → String
  | run => "run"
  | disassemble => "disasm"
  | encode => "encode"
  | verify => "verify"

def Verb.purpose : Verb → String
  | run => "Run a function of a module image"
  | disassemble =>
    "Print the instructions of every function in a module image, or of a binary code blob written by `encode`"
  | encode => "Write the binary encoding of one function's code"
  | verify => "Build a module image with the verifier enabled"

def Verb.imageEntry (v : Verb) : Entry :=
  ⟨"<IMAGE>", match v with
    | run => "The module image to run"
    | disassemble => "The module image or code blob to disassemble"
    | encode => "The module image holding the function"
    | verify => "The module image to verify"⟩

def configEntry : Entry := ⟨"    --config <CONFIG>", "Engine configuration file (TOML)"⟩

def verboseEntry : Entry := ⟨"-v, --verbose", "Log engine activity at debug level"⟩

def helpEntry : Entry := ⟨"-h, --help", "Print help"⟩

def Verb.optionEntries : Verb → List Entry
  | run =>
    [configEntry,
     ⟨"    --entry <ENTRY>", "Entry function name [default: main]"⟩,
     ⟨"    --arg <ARGS>", "Argument for the entry function; repeat for each parameter"⟩,
     verboseEntry,
     ⟨"    --with <WITH>", "Additional module images whose functions the main image imports"⟩,
     ⟨"    --timeout <TIMEOUT>",
       "Abort execution after this many seconds (0 = no timeout) [default: 0]"⟩,
     helpEntry]
  | encode =>
    [configEntry,
     ⟨"    --function <FUNCTION>", "Function to encode [default: main]"⟩,
     ⟨"-o, --output <OUTPUT>", "Output file"⟩,
     verboseEntry,
     helpEntry]
  | disassemble | verify => [configEntry, verboseEntry, helpEntry]

def Verb.pattern : Verb → String
  | encode => "[OPTIONS] --output <OUTPUT> <IMAGE>"
  | run | disassemble | verify => "[OPTIONS] <IMAGE>"

def helpPurpose : String := "Print this message or the help of the given subcommand(s)"

def page (summary pattern : String) (lists : List String) : String :=
  String.intercalate "\n" (fill lineWidth summary) ++ "\n\nUsage: cadence " ++ pattern ++ "\n\n" ++
    String.intercalate "\n" lists

/-- What the program says about itself. These texts belong to the outer layer, as command lines do.
-/
def Topic.page : Topic → String
  | program =>
    CommandLine.page "Run and inspect cadence module images" "[OPTIONS] <COMMAND>"
      [listing "Commands"
         ([Verb.run, .disassemble, .encode, .verify].map (fun v => ⟨v.name, v.purpose⟩) ++
           [⟨"help", helpPurpose⟩]),
       listing "Options" [configEntry, verboseEntry, helpEntry]]
  | verb v =>
    CommandLine.page v.purpose (v.name ++ " " ++ v.pattern)
      [listing "Arguments" [v.imageEntry], listing "Options" v.optionEntries]
  | help =>
    CommandLine.page helpPurpose "help [COMMAND]..."
      [listing "Arguments" [⟨"[COMMAND]...", "Print help for the subcommand(s)"⟩]]

end ScriptVm.CommandLine

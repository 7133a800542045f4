import ScriptVm.Instr.Text
import ScriptVm.Module.Basic

namespace ScriptVm.CommandLine

def padLeft (c : Char) (width : Nat) (s : String) : String :=
  String.ofList (List.replicate (width - s.length) c) ++ s

def listLine (pc : Nat) (line : Option UInt32) (i : Instr) : String :=
  let line := (line.map fun l => toString l.toNat).getD ""
  "  " ++ padLeft '0' 4 (toString pc) ++ " " ++ padLeft ' ' 4 line ++ " " ++ i.text ++ "\n"

def listCode (lineOf : Nat → Option UInt32) (code : List Instr) : String :=
  String.join (code.zipIdx.map fun (i, pc) => listLine pc (lineOf pc) i)

def startLine? (t : LineTable) (pc : Nat) : Option UInt32 :=
  (t.entries.find? fun e => e.pc.toNat == pc).map LineEntry.line

def listFunction (f : Func) : String :=
  f.declaration ++ ":\n" ++ listCode (startLine? f.lines) f.code.toList ++ "\n"

/-- The code of a module: number, source line and instruction on each line. -/
def listModule (m : Module) : String :=
  String.join ((m.functions.toList ++ m.initializer.toList).map listFunction)

end ScriptVm.CommandLine

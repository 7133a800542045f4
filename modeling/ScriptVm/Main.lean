import ScriptVm.CommandLine.Perform

namespace ScriptVm.CommandLine

def fileError : IO.Error → FileError
  | .noFileOrDirectory _ _ _ => .notFound
  | .inappropriateType _ 20 _ => .notDirectory
  | .inappropriateType _ 21 _ => .isDirectory
  | .invalidArgument _ 36 _ => .nameTooLong
  | e => .other e.toString

def realDisk : Disk IO :=
  { read := fun path => do
      try
        let content ← IO.FS.readBinFile path
        return .ok content.toList
      catch e => return .error (fileError e)
    write := fun path content => do
      try
        IO.FS.writeBinFile path ⟨content.toArray⟩
        return .ok ()
      catch e => return .error (fileError e) }

def unbounded : Nat := Nat.pow 2 62

end ScriptVm.CommandLine

open ScriptVm.CommandLine in
/-- Carries out a command line on the files of the computer. -/
def main (words : List String) : IO UInt32 := do
  let answer ← perform unbounded realDisk words
  IO.print answer.out
  IO.eprint answer.err
  return answer.code.toUInt32

namespace ScriptVm

inductive FileError where
  | notFound | notDirectory | isDirectory | nameTooLong | zeroInName | notText
  | other (message : String)
  deriving DecidableEq, Inhabited, Repr

def FileError.message : FileError → String
  | notFound => "No such file or directory (os error 2)"
  | notDirectory => "Not a directory (os error 20)"
  | isDirectory => "Is a directory (os error 21)"
  | nameTooLong => "File name too long (os error 36)"
  | zeroInName => "file name contained an unexpected NUL byte"
  | notText => "stream did not contain valid UTF-8"
  | other message => message

structure Disk (m : Type → Type) where
  read : String → m (Except FileError (List UInt8))
  write : String → List UInt8 → m (Except FileError Unit)

def textOf (content : Except FileError (List UInt8)) : Except FileError String := do
  match String.fromUTF8? ⟨(← content).toArray⟩ with
  | some text => .ok text
  | none => .error .notText

/-- A directory: the one where the program runs, one some levels above it, or the topmost one. -/
inductive Folder where
  | above (levels : Nat)
  | top
  deriving DecidableEq, Inhabited, Repr

def Folder.parent : Folder → Folder
  | above levels => above (levels + 1)
  | top => top

/-- Where a path leads: to a directory, or to a name in one, whether there is such a file or not. -/
inductive Spot where
  | directory (folder : Folder)
  | entry (folder : Folder) (name : String)
  deriving DecidableEq, Inhabited, Repr

/-- The directory where the program runs and those above it, held in memory. No other directory is
there. -/
structure Directory where
  files : List ((Folder × String) × List UInt8) := []
  deriving Inhabited, Repr

namespace Directory

def nameLimit : Nat := 255

def pathLimit : Nat := 4095

def lookup (d : Directory) (folder : Folder) (name : String) :
    Except FileError (Option (List UInt8)) :=
  if nameLimit < name.utf8ByteSize then .error .nameTooLong
  else .ok ((d.files.find? fun f => f.1 == (folder, name)).map Prod.snd)

/-- Follows names from a directory on. All but the last must lead to directories, also when the way
goes up again. -/
def walk (d : Directory) (folder : Folder) : List String → Except FileError Spot
  | [] => .ok (.directory folder)
  | "." :: rest => d.walk folder rest
  | ".." :: rest => d.walk folder.parent rest
  | [name] => .ok (.entry folder name)
  | name :: _ :: _ => do
    match ← d.lookup folder name with
    | some _ => .error .notDirectory
    | none => .error .notFound

def locate (d : Directory) (path : String) : Except FileError Spot :=
  if path.toList.contains (Char.ofNat 0) then .error .zeroInName
  else if path.isEmpty then .error .notFound
  else if pathLimit < path.utf8ByteSize then .error .nameTooLong
  else d.walk (if path.startsWith "/" then .top else .above 0)
    ((path.splitOn "/").filter fun n => !n.isEmpty)

def read (d : Directory) (path : String) : Except FileError (List UInt8) := do
  match ← d.locate path with
  | .directory _ => .error .isDirectory
  | .entry folder name =>
    match ← d.lookup folder name with
    | none => .error .notFound
    | some content => if path.endsWith "/" then .error .notDirectory else .ok content

def put (d : Directory) (folder : Folder) (name : String) (content : List UInt8) : Directory :=
  ⟨d.files.filter (fun f => f.1 != (folder, name)) ++ [((folder, name), content)]⟩

def write (d : Directory) (path : String) (content : List UInt8) : Except FileError Directory := do
  match ← d.locate path with
  | .directory _ => .error .isDirectory
  | .entry folder name =>
    if path.endsWith "/" then .error .isDirectory
    else do
      let _ ← d.lookup folder name
      return d.put folder name content

def disk : Disk (StateM Directory) :=
  { read := fun path => do return (← get).read path
    write := fun path content => do
      match (← get).write path content with
      | .ok d =>
        set d
        return .ok ()
      | .error e => return .error e }

end Directory
end ScriptVm

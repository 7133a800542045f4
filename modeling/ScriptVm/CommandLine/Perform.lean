import ScriptVm.CommandLine.Help
import ScriptVm.CommandLine.Listing
import ScriptVm.CommandLine.Values
import ScriptVm.Config.Reader
import ScriptVm.Disk
import ScriptVm.Engine.Binding
import ScriptVm.Execution.Globals
import ScriptVm.Image.Json
import ScriptVm.Image.Load
import ScriptVm.Instr.Blob

namespace ScriptVm.CommandLine

inductive CommandError where
  | config (path : String) (e : FileError)
  | badConfig
  | file (path : String) (e : FileError)
  | image (path : String) (e : ImageError)
  | blob (path : String) (e : CodeError)
  | module (name : String) (e : ModuleError)
  | noFunction (name : String)
  | request (e : RequestError)
  | argument (e : ArgumentError)
  | exception (e : ScriptException)
  | suspended
  | timedOut (seconds : Nat)
  deriving DecidableEq, Inhabited, Repr

def sourceText (line column : UInt32) : String :=
  if line = 0 then ""
  else if column = 0 then " at line " ++ toString line.toNat
  else " at " ++ toString line.toNat ++ ":" ++ toString column.toNat

def CommandError.message : CommandError → String
  | config path e => "failed to read " ++ path ++ ": " ++ e.message
  | badConfig => "invalid configuration: "
  | file path e => path ++ ": " ++ e.message
  | image path e => path ++ ": " ++ e.message
  | blob path e => path ++ ": " ++ e.message
  | module name e => name ++ ": " ++ e.message
  | noFunction name => "no function named '" ++ name ++ "'"
  | request e => e.message
  | argument e => e.message
  | exception e => e.message ++ " in " ++ e.functionName ++ sourceText e.line e.column
  | suspended => "execution suspended"
  | timedOut seconds => "execution timed out after " ++ toString seconds ++ " seconds"

/-- What a command leaves: an exit code and text for both streams. -/
structure Answer where
  code : Nat := 0
  out : String := ""
  err : String := ""
  deriving DecidableEq, Inhabited, Repr

abbrev Task := EStateM (Stop CommandError) Engine

namespace Task

def fail {α : Type} (e : CommandError) : Task α := throw (.cause e)

def adapt {ε α : Type} (f : ε → CommandError) (x : EStateM (Stop ε) Engine α) : Task α :=
  EStateM.adaptExcept (Stop.map f) x

def ofExcept {ε α : Type} (f : ε → CommandError) : Except ε α → Task α
  | .ok a => pure a
  | .error e => fail (f e)

def change {ε α : Type} (f : ε → CommandError) (x : Engine → Except ε α × Engine) : Task α := do
  ofExcept f (← modifyGet x)

def load (path : String) (content : Except FileError (List UInt8)) : Task ModuleId := do
  let text ← ofExcept (fun e => .image path (.unreadable e.message)) (textOf content)
  match Image.read? text with
  | none => fail (.image path .malformed)
  | some i => adapt (.image path) (Load.image i)

def module (id : ModuleId) : Task Module := do return ((← get).built? id).getD { id, name := "" }

def functionNamed (m : Module) (name : String) : Task Func :=
  match m.funcNamed? name with
  | some f => pure f
  | none => fail (.noFunction name)

def bindImports (id : ModuleId) : Task Unit := do
  let m ← module id
  if !m.imports.isEmpty then change (.module m.name) fun e => e.bindAll id

def resetGlobals (fuel : Nat) (id : ModuleId) : Task Unit := do
  adapt (.module (← module id).name) (Engine.resetGlobals fuel id)

def call (fuel : Nat) (f : Func) (arguments : List String) (timeout : Nat) :
    Exec CommandError String := do
  EStateM.adaptExcept (Stop.map .request) (Exec.prepare f.id)
  EStateM.adaptExcept (Stop.map .argument) (setAllArguments f arguments)
  let outcome ← EStateM.adaptExcept (Stop.map .request) (Exec.execute fuel)
  let c ← Exec.ctx
  match outcome, c.exception with
  | .finished, _ => return ((resultText? f.signature.returns c).map (· ++ "\n")).getD ""
  | .exception, some e => Exec.fail (.exception e)
  | .aborted, _ => Exec.fail (.timedOut timeout)
  | _, _ => Exec.fail .suspended

def inContext {α : Type} (x : Exec CommandError α) : Task α := fun e =>
  match x e.newMachine with
  | .ok a m => .ok a m.drop.engine
  | .error stop m => .error stop m.drop.engine

def addBuiltins (e : Engine) : Engine :=
  [("print_int", DataType.int, ArgKind.int), ("print_double", .double, .double),
    ("print_bool", .bool, .bool)].foldl
    (fun e (name, type, kind) =>
      (e.registerHost { name, signature := .ofTypes .void [type] } (.ofActions [.printArg kind 0])).2)
    e

def printed (e : Engine) : String :=
  e.trace.foldl
    (fun out event => match event with
      | .printed text => out ++ text ++ "\n"
      | _ => out)
    ""

def answer (config : Config) (x : Task String) : Answer :=
  match x (addBuiltins { config }) with
  | .ok text e => { out := printed e ++ text }
  | .error (.cause err) e => { code := 1, out := printed e, err := "error: " ++ err.message ++ "\n" }
  | .error _ e => { code := 101, out := printed e }

end Task

abbrev Content := String × Except FileError (List UInt8)

/-- Loads the companions and the image, binds imports, sets globals, and runs the entry function. -/
def runTask (fuel : Nat) (companions : List Content) (image : Content) (entry : String)
    (arguments : List String) (timeout : Nat) : Task String := do
  let others ← companions.mapM fun (path, content) => Task.load path content
  let main ← Task.load image.1 image.2
  (others ++ [main]).forM Task.bindImports
  (others ++ [main]).forM (Task.resetGlobals fuel)
  let f ← Task.functionNamed (← Task.module main) entry
  Task.inContext (Task.call fuel f arguments timeout)

def disassembleTask (image : Content) : Task String := do
  let bytes ← Task.ofExcept (.file image.1) image.2
  if Blob.isBlob bytes then
    let code ← Task.ofExcept (.blob image.1) (Blob.read bytes)
    return image.1 ++ ":\n" ++ listCode (fun _ => none) code
  else return listModule (← Task.module (← Task.load image.1 image.2))

def verifyTask (image : Content) : Task String := do
  let m ← Task.module (← Task.load image.1 image.2)
  return m.name ++ ": " ++ toString m.functions.size ++ " function(s) verified\n"

def findTask (image : Content) (name : String) : Task Func := do
  Task.functionNamed (← Task.module (← Task.load image.1 image.2)) name

def encodeTask (image : Content) (name output : String) (written : Except FileError Unit) :
    Task String := do
  let f ← findTask image name
  Task.ofExcept (.file output) written
  return f.declaration ++ ": " ++ toString f.code.size ++ " instruction(s), " ++
    toString (Blob.write f.code.toList).length ++ " bytes\n"

def blobOf? (config : Config) (image : Content) (name : String) : Option (List UInt8) :=
  match findTask image name (Task.addBuiltins { config }) with
  | .ok f _ => some (Blob.write f.code.toList)
  | .error _ _ => none

section
variable {m : Type → Type} [Monad m]

def readContent (disk : Disk m) (path : String) : m Content := do return (path, ← disk.read path)

def readConfig (disk : Disk m) : Option String → m (Except CommandError Config)
  | none => return .ok {}
  | some path => do
    match textOf (← disk.read path) with
    | .error e => return .error (.config path e)
    | .ok text =>
      match Config.read? text with
      | some config => return .ok config
      | none => return .error .badConfig

/-- Carries out a command. Listings are made without checks, and `verify` makes them in any case. -/
def Command.perform (fuel : Nat) (disk : Disk m) (config : Config) : Command → m Answer
  | run image companions entry arguments timeout => do
    let companions ← companions.mapM (readContent disk)
    let image ← readContent disk image
    return Task.answer config (runTask fuel companions image entry arguments timeout)
  | disassemble image => do
    return Task.answer { config with verify := false } (disassembleTask (← readContent disk image))
  | encode image name output => do
    let image ← readContent disk image
    let written ← match blobOf? config image name with
      | some blob => disk.write output blob
      | none => pure (.ok ())
    return Task.answer config (encodeTask image name output written)
  | verify image => do
    return Task.answer { config with verify := true } (verifyTask (← readContent disk image))

def perform (fuel : Nat) (disk : Disk m) (words : List String) : m Answer := do
  match Invocation.read words with
  | .error .usage => return { code := 2, err := Topic.program.page }
  | .error (.help topic) => return { out := topic.page }
  | .ok i =>
    match ← readConfig disk i.config with
    | .error e => return { code := 1, err := "error: " ++ e.message ++ "\n" }
    | .ok config => i.command.perform fuel disk config

end
end ScriptVm.CommandLine
